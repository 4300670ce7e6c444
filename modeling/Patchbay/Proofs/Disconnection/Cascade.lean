import Mathlib.Data.List.Nodup
import Patchbay.Proofs.Host.Ownership

namespace Patchbay

open Act

def HostCall.cut? : HostCall → Option HostId
  | .disconnect id => some id
  | _ => none

-- The host nodes that were disconnected, in order.
def Engine.cuts (engine : Engine) : List HostId := engine.calls.toList.filterMap HostCall.cut?

def Studio.standings (s : Studio) : List (Node × Bool × Bool) :=
  s.nodes.toList.map NodeState.standing

-- What a node that has been disconnected has had disconnected in a context.
def severedBy (c : ContextId) (standing : Node × Bool × Bool) : List HostId :=
  if standing.2.2 = true ∧ standing.1.context = c then standing.1.cutHosts else []

def Studio.severed (s : Studio) (c : ContextId) : List HostId := s.standings.flatMap (severedBy c)

theorem flatMap_modify_eq {α β : Type} (l : List α) (i : Nat) {f : α → α} {g : α → List β}
    (h : ∀ a, g (f a) = g a) : (l.modify i f).flatMap g = l.flatMap g := by
  have hmap : (l.modify i f).map g = l.map g := by
    apply List.ext_getElem?
    intro j
    rw [List.getElem?_map, List.getElem?_map, List.getElem?_modify]
    split
    case isTrue => cases l[j]? <;> simp [h]
    case isFalse => simp
  rw [List.flatMap_def, hmap, ← List.flatMap_def]

-- An item that has given nothing so far gives what it is changed for, besides all else.
theorem perm_flatMap_modify {α β : Type} {l : List α} {i : Nat} {a : α} (h : l[i]? = some a)
    (f : α → α) {g : α → List β} (hnil : g a = []) :
    ((l.modify i f).flatMap g).Perm (l.flatMap g ++ g (f a)) := by
  induction l generalizing i with
  | nil => cases h
  | cons b rest ih =>
      cases i with
      | zero =>
          obtain rfl : b = a := by simpa using h
          simp [hnil, List.perm_append_comm]
      | succ i =>
          have hrest := (ih (i := i) (by simpa using h)).append_left (g b)
          simpa using hrest

theorem Studio.severed_eq (s : Studio) (c : ContextId) :
    s.severed c = s.nodes.toList.flatMap fun state => severedBy c state.standing := by
  rw [severed, standings, List.flatMap_map]

structure Uncut (s t : Studio) : Prop where
  severed : ∀ c, t.severed c = s.severed c
  cuts : ∀ c, (t.engine c).cuts = (s.engine c).cuts

namespace Uncut

variable {s t : Studio}

instance : IsPreorder Studio Uncut where
  refl _ := ⟨fun _ => rfl, fun _ => rfl⟩
  trans _ _ _ h h' := ⟨fun c => (h'.severed c).trans (h.severed c),
    fun c => (h'.cuts c).trans (h.cuts c)⟩

theorem of_unmoved (s t : Studio) (h : Unmoved s t) : Uncut s t where
  severed c := by
    have hstandings : t.standings = s.standings := by
      apply List.ext_getElem?
      intro id
      simpa only [Studio.standings, List.getElem?_map, Array.getElem?_toList] using h.nodes id
    rw [Studio.severed, hstandings, Studio.severed]
  cuts c := by rw [Engine.cuts, h.calls, Engine.cuts]

theorem of_push {state : NodeState} (h : state.disconnected = false) :
    Uncut s { s with nodes := s.nodes.push state } where
  severed c := by
    simp [Studio.severed, Studio.standings, severedBy, NodeState.standing, h]
  cuts _ := rfl

theorem of_change (id : NodeId) {f : NodeState → NodeState}
    (hf : ∀ state c, severedBy c (f state).standing = severedBy c state.standing) :
    Uncut s { s with nodes := s.nodes.modify id f } where
  severed c := by
    simp only [Studio.severed_eq, Array.toList_modify]
    exact flatMap_modify_eq _ _ fun state => hf state c
  cuts _ := rfl

theorem of_engine (context : ContextId) {engine : Engine}
    (h : engine.cuts = (s.engine context).cuts) :
    Uncut s { s with engines := s.engines.modify context fun _ => engine } where
  severed _ := rfl
  cuts c := by
    rw [s.engine_setEngine]
    split
    case isTrue hc => rw [h, hc.1]
    case isFalse => rfl

instance : Wires Uncut where
  request context request s := by
    refine along_host fun engine h => ⟨of_engine context ?_, trivial⟩
    have hnone : HostCall.cut? request.call = none := by cases request <;> rfl
    rw [Engine.cuts, Request.filterMap_send HostCall.cut? h, hnone]
    simp [Engine.cuts]
  started id := keeps_modify fun _ => of_change id fun _ _ => rfl
  connected id _ := keeps_modify fun _ => of_change id fun _ _ => rfl

instance : Composes Uncut where
  created context kind := fun s => along_read (along_bind
    (along_modify (of_engine context (by simp [Engine.record, Engine.cuts, HostCall.cut?])))
    fun _ _ _ _ => along_pure trivial)
  enrolled context label duration release make _ s := by
    refine Ends.mono (Node.ends_enrolled s) (fun node t ht => ⟨?_, trivial⟩) fun _ _ h => h.elim
    obtain ⟨-, state, hstanding, huntouched⟩ := ht
    have hfresh : state.disconnected = false := congrArg (·.2.2) hstanding
    exact trans_of Uncut (of_push hfresh) (of_unmoved _ _ huntouched.toUnmoved)
  watched context host watcher := fun _ => along_read (along_modify (of_engine context rfl))
  warned _ := keeps_aside of_unmoved (fun _ => rfl) fun _ => rfl
  read := keeps_readAside of_unmoved
  opened := keeps_openBuilder of_unmoved
  memoized _ _ _ := keeps_aside of_unmoved (fun _ => rfl) fun _ => rfl

end Uncut

-- What is logged from one to the other is what nodes that are disconnected meanwhile had to have
-- disconnected.
structure Severs (s t : Studio) : Prop where
  grows : s.ledger.Grows t.ledger
  calls : ∀ c, ∃ hosts, (t.engine c).calls.toList =
    (s.engine c).calls.toList ++ hosts.map HostCall.disconnect ∧
      (t.severed c).Perm (s.severed c ++ hosts)

namespace Severs

variable {s t : Studio}

theorem of_quiet (hgrows : s.ledger.Grows t.ledger) (hcalls : ∀ c, (t.engine c).calls =
    (s.engine c).calls) (hsevered : ∀ c, t.severed c = s.severed c) : Severs s t :=
  ⟨hgrows, fun c => ⟨[], by simp [hcalls], by simp [hsevered]⟩⟩

instance : IsPreorder Studio Severs where
  refl _ := of_quiet (.refl _) (fun _ => rfl) fun _ => rfl
  trans s t u h h' := by
    refine ⟨h.grows.trans h'.grows, fun c => ?_⟩
    obtain ⟨hosts, hcalls, hperm⟩ := h.calls c
    obtain ⟨hosts', hcalls', hperm'⟩ := h'.calls c
    refine ⟨hosts ++ hosts', ?_, ?_⟩
    · rw [hcalls', hcalls, List.map_append, List.append_assoc]
    · rw [← List.append_assoc]
      exact hperm'.trans (hperm.append_right hosts')

end Severs

variable {s : Studio}

-- All that the node reaches stands as it was made.
def Ledger.Stands (L : Ledger) (node : Node) : Prop :=
  ∀ inner ∈ node.reach, L.Knows inner ∧ L.Formed inner

namespace Ledger.Stands

variable {L M : Ledger} {node : Node}

theorem of_sound (hs : L.Sound 0) (hnode : L.Knows node) : L.Stands node := by
  intro inner hinner
  have hknown := hs.knows_of_reach hnode hinner
  exact ⟨hknown, hs.formed hknown⟩

theorem grow (h : L.Stands node) (hLM : L.Grows M) : M.Stands node :=
  fun inner hinner => ⟨(h inner hinner).1.grow hLM, (h inner hinner).2.grow hLM⟩

theorem part (h : L.Stands node) {part : Node} (hpart : part ∈ node.parts) : L.Stands part :=
  fun inner hinner => h inner (Node.reach_trans hinner (Node.part_mem_reach hpart))

end Ledger.Stands

-- Each of several host nodes is disconnected, in order.
theorem ends_cutEach {context : ContextId} {hosts : List HostId} (hc : context < s.engines.size)
    (hhosts : ∀ host ∈ hosts, s.ledger.HasHost context host) :
    Ends (hosts.forM fun host => Act.host context (·.disconnect host)) s
      (fun _ t => s.ledger.Grows t.ledger ∧ t.nodes = s.nodes ∧ ∀ c, (t.engine c).calls.toList =
        (s.engine c).calls.toList ++ if c = context then hosts.map .disconnect else [])
      fun _ _ => False := by
  induction hosts generalizing s with
  | nil =>
      rw [ends_forM_nil]
      exact ⟨.refl _, rfl, fun c => by simp⟩
  | cons host rest ih =>
      rw [ends_forM_cons]
      refine ends_of_eq (Studio.cutHost_eq_ok (hhosts host List.mem_cons_self)) ?_
      have hgrows : s.ledger.Grows (s.cutHost context host).ledger := by
        rw [Studio.ledger_cutHost]
        exact s.ledger.grows_setHost context host HostFate.grows_cutOff
      have hopened : context < (s.cutHost context host).engines.size :=
        Nat.lt_of_lt_of_le hc hgrows.contexts
      have hrest := ih hopened fun other hother =>
        (hhosts other (List.mem_cons_of_mem _ hother)).grow hgrows
      refine hrest.mono (fun _ u hu => ?_) fun _ _ h => h
      obtain ⟨htu, hnodes, hcalls⟩ := hu
      refine ⟨hgrows.trans htu, hnodes, fun c => ?_⟩
      rw [hcalls, Studio.cutHost, s.engine_setEngine]
      by_cases heq : context = c
      · subst heq
        simp [hc, Engine.record, Engine.change]
      · simp [heq, Ne.symm heq]

theorem Studio.state_of_knows {node : Node} (h : s.ledger.Knows node) :
    ∃ state, s.nodes[node.id]? = some state ∧ state.node = node := by
  rw [Ledger.Knows, s.fate_eq] at h
  cases hstate : s.nodes[node.id]? with
  | none => simp [hstate, Fate.absent] at h
  | some state => exact ⟨state, rfl, by simpa [hstate, NodeState.fate] using h⟩

theorem Studio.node?_of_knows {node : Node} (h : s.ledger.Knows node) :
    s.node? node.id = some node := by
  obtain ⟨state, hstate, rfl⟩ := state_of_knows h
  exact congrArg (Option.map NodeState.node) hstate

-- A node that is marked as disconnected, and its own host nodes with it.
theorem severs_mark {node : Node} (hnode : s.ledger.Knows node) (hformed : s.ledger.Formed node)
    (hcut : (s.ledger.fate node.id).cut = false) :
    Along Severs (do
      changeNode node.id fun state => { state with disconnected := true }
      node.cutHosts.forM fun host => Act.host node.context (·.disconnect host)) s
      fun _ _ => True := by
  obtain ⟨state, hstate, hsame⟩ := Studio.state_of_knows hnode
  let marked : Studio := { s with nodes := s.nodes.modify node.id fun state =>
    { state with disconnected := true } }
  have hledger : marked.ledger = s.ledger.setFate node.id .cutOff :=
    s.ledger_changeNode hformed.below fun _ => rfl
  have hgrows : s.ledger.Grows marked.ledger := by
    rw [hledger]
    exact s.ledger.grows_setFate node.id (Fate.grows_cutOff _)
  have hfresh : state.disconnected = false := by
    rw [s.fate_eq, hstate] at hcut
    exact hcut
  have hsevered (c : ContextId) : (marked.severed c).Perm
      (s.severed c ++ if c = node.context then node.cutHosts else []) := by
    have hperm := perm_flatMap_modify (l := s.nodes.toList) (i := node.id) (a := state)
      (by simpa using hstate) (fun state => { state with disconnected := true })
      (g := fun state => severedBy c state.standing)
      (by simp [severedBy, NodeState.standing, hfresh])
    have hself : severedBy c ({ state with disconnected := true } : NodeState).standing =
        if c = node.context then node.cutHosts else [] := by
      simp [severedBy, NodeState.standing, hsame, @eq_comm _ c]
    rw [Studio.severed_eq, Studio.severed_eq, Array.toList_modify, ← hself]
    exact hperm
  have hhosts : ∀ host ∈ node.cutHosts, marked.ledger.HasHost node.context host :=
    fun host hhost => (hformed.hosts host (Node.mem_ownHosts_of_cut hhost)).grow hgrows
  unfold Along
  rw [ends_bind, changeNode, ends_modify]
  have heach := ends_cutEach (s := marked) hformed.opened hhosts
  refine Ends.mono heach (fun _ t ht => ⟨?_, trivial⟩) fun _ _ h => h.elim
  obtain ⟨htgrows, hnodes, hcalls⟩ := ht
  refine ⟨hgrows.trans htgrows, fun c => ⟨if c = node.context then node.cutHosts else [], ?_, ?_⟩⟩
  · rw [hcalls]
    split <;> rfl
  · have hsame : t.severed c = marked.severed c := by
      rw [Studio.severed_eq, Studio.severed_eq, hnodes]
    rw [hsame]
    exact hsevered c

theorem severs_disconnectAll {nodes : List Node} (hnodes : ∀ node ∈ nodes, s.ledger.Stands node)
    (h : ∀ node ∈ nodes, ∀ t : Studio, t.ledger.Stands node →
      Along Severs node.disconnect t fun _ _ => True) :
    Along Severs (Node.disconnectAll nodes) s fun _ _ => True := by
  induction nodes generalizing s with
  | nil => exact along_pure trivial
  | cons node rest ih =>
      rw [Node.disconnectAll]
      have hfirst := h node List.mem_cons_self s (hnodes node List.mem_cons_self)
      refine along_bind hfirst fun _ t hst _ => ih (fun other hother => ?_) fun other hother => ?_
      · exact (hnodes other (List.mem_cons_of_mem _ hother)).grow hst.grows
      · exact h other (List.mem_cons_of_mem _ hother)

theorem severs_disconnect {node : Node} (hnode : s.ledger.Stands node) :
    Along Severs node.disconnect s fun _ _ => True := by
  induction node using Node.induct generalizing s with
  | step node ih =>
      obtain ⟨hknown, hformed⟩ := hnode node node.self_mem_reach
      rw [Node.disconnect_eq]
      refine along_read ?_
      rw [Node.state_disconnected]
      split
      case isTrue => exact along_pure trivial
      case isFalse hcut =>
          have hmark := severs_mark hknown hformed (Bool.not_eq_true _ ▸ hcut)
          have hrest {t : Studio} (hst : Severs s t) : Along Severs (do
              Node.disconnectAll node.parts
              changeNode node.id fun state => { state with connected := false }) t
              fun _ _ => True := by
            have hparts : Along Severs (Node.disconnectAll node.parts) t fun _ _ => True :=
              severs_disconnectAll (fun part hpart => (hnode.part hpart).grow hst.grows) ih
            refine along_bind hparts fun _ u _ _ => along_modify ?_
            let after : Studio := { u with nodes := u.nodes.modify node.id fun state =>
              { state with connected := false } }
            have hledger : after.ledger = u.ledger := u.ledger_changeNode_eq _ fun _ => rfl
            have hsame : Uncut u after := .of_change node.id fun _ _ => rfl
            have hquiet : Severs u after :=
              .of_quiet (hledger ▸ .refl _) (fun _ => rfl) hsame.severed
            exact hquiet
          have hall := along_bind hmark fun _ t hst _ => hrest hst
          simpa only [bind_assoc] using hall

theorem mem_severedBy {c : ContextId} {host : HostId} {state : NodeState} :
    host ∈ severedBy c state.standing ↔
      state.disconnected = true ∧ state.node.context = c ∧ host ∈ state.node.cutHosts := by
  unfold severedBy NodeState.standing
  split
  case isTrue h => exact ⟨fun hhost => ⟨h.1, h.2, hhost⟩, fun hall => hall.2.2⟩
  case isFalse h =>
      rw [← and_assoc]
      exact ⟨fun hhost => absurd hhost List.not_mem_nil, fun hall => absurd hall.1 h⟩

theorem Studio.mem_severed {c : ContextId} {host : HostId} : host ∈ s.severed c ↔
    ∃ id node, s.node? id = some node ∧ (s.ledger.fate id).cut = true ∧ node.context = c ∧
      host ∈ node.cutHosts := by
  rw [severed_eq, List.mem_flatMap]
  constructor
  · rintro ⟨state, hmem, hhost⟩
    obtain ⟨id, hid⟩ := List.mem_iff_getElem?.1 hmem
    rw [Array.getElem?_toList] at hid
    obtain ⟨hcut, hcontext, hhost⟩ := mem_severedBy.1 hhost
    have hmarked : (s.ledger.fate id).cut = true := by simpa [ledger, hid, NodeState.fate] using hcut
    exact ⟨id, state.node, by simp [node?, hid], hmarked, hcontext, hhost⟩
  · rintro ⟨id, node, hnode, hcut, hcontext, hhost⟩
    obtain ⟨state, hstate, rfl⟩ := Option.map_eq_some_iff.1 hnode
    have hcut : state.disconnected = true := by simpa [ledger, hstate, NodeState.fate] using hcut
    have hmem : state ∈ s.nodes.toList := Array.mem_toList_iff.2 (Array.mem_of_getElem? hstate)
    exact ⟨state, hmem, mem_severedBy.2 ⟨hcut, hcontext, hhost⟩⟩

-- As nodes have their host nodes to themselves.
theorem Studio.nodup_severed (hsound : s.ledger.Sound 0) (hs : Housed s) (c : ContextId) :
    (s.severed c).Nodup := by
  have hnode {id : NodeId} {state : NodeState} (h : s.nodes[id]? = some state) :
      s.node? id = some state.node ∧ state.node.context < s.engines.size := by
    have hnode : s.node? id = some state.node := by rw [node?, h]; rfl
    exact ⟨hnode, (hsound.formed (offers_of_node hsound hnode).1.known).opened⟩
  rw [severed_eq, List.nodup_flatMap]
  constructor
  · intro state hmem
    obtain ⟨id, hid⟩ := List.mem_iff_getElem?.1 hmem
    obtain ⟨hid, hc⟩ := hnode (Array.getElem?_toList ▸ hid)
    unfold severedBy
    split
    · exact (hs.houses id state.node hid hc).nodup
    · exact List.nodup_nil
  · rw [List.pairwise_iff_getElem]
    intro id other hid hother hlt host hhost hhost'
    obtain ⟨hid, hc⟩ := hnode (Array.getElem?_eq_getElem (by simpa using hid))
    obtain ⟨hother, hc'⟩ := hnode (Array.getElem?_eq_getElem (by simpa using hother))
    obtain ⟨-, hcontext, hhost⟩ := mem_severedBy.1 hhost
    obtain ⟨-, hcontext', hhost'⟩ := mem_severedBy.1 hhost'
    have heq := hs.apart id other _ _ hid hother hc (hcontext'.trans hcontext.symm) host hhost hhost'
    exact Nat.ne_of_lt hlt heq

-- Whatever is marked from one to the other is among these.
def Within (ids : List NodeId) (s t : Studio) : Prop :=
  ∀ id, (t.ledger.fate id).cut = true → (s.ledger.fate id).cut = true ∨ id ∈ ids

instance {ids : List NodeId} : IsPreorder Studio (Within ids) where
  refl _ _ := .inl
  trans _ _ _ h h' id hid := (h' id hid).elim (h id) .inr

theorem within_disconnect (node : Node) :
    Keeps (Within (node.reach.map Node.id)) node.disconnect := by
  apply node.keeps_disconnect
  case hmark =>
      refine fun inner hinner => keeps_modify fun t id hid => ?_
      by_cases heq : inner.id = id
      · exact .inr (heq ▸ List.mem_map_of_mem hinner)
      · left
        simpa [Studio.ledger, Array.getElem?_modify, heq] using hid
  case hcut => exact fun context host t => along_host fun _ _ => ⟨fun id hid => .inl hid, trivial⟩
  case hconnected =>
      refine fun id => keeps_modify fun t => ?_
      have hledger : ({ t with nodes := t.nodes.modify id fun state =>
          { state with connected := false } } : Studio).ledger = t.ledger :=
        t.ledger_changeNode_eq id fun _ => rfl
      exact fun other hother => .inl (hledger ▸ hother)

-- The log of every host shows what nodes have had disconnected, and no more.
def Logged (s : Studio) : Prop := ∀ c, (s.engine c).cuts.Perm (s.severed c)

theorem Uncut.logged {s t : Studio} (h : Uncut s t) : Preserves Logged s t := by
  intro hs c
  rw [h.severed, h.cuts]
  exact hs c

theorem Severs.logged {s t : Studio} (h : Severs s t) : Preserves Logged s t := by
  intro hs c
  obtain ⟨hosts, hcalls, hperm⟩ := h.calls c
  have hcuts : (t.engine c).cuts = (s.engine c).cuts ++ hosts := by
    simp [Engine.cuts, hcalls, List.filterMap_map, Function.comp_def, HostCall.cut?]
  rw [hcuts]
  exact ((hs c).append_right hosts).trans hperm.symm

-- What is opened has nothing on its log, and no node yet.
theorem Logged.openContext {s : Studio} (hs : Logged s) (rate : Float) :
    Logged { s with engines := s.engines.push (.new rate) } := by
  intro c
  have hsevered : ({ s with engines := s.engines.push (.new rate) } : Studio).severed c =
      s.severed c := rfl
  have hcuts : (({ s with engines := s.engines.push (.new rate) } : Studio).engine c).cuts =
      (s.engine c).cuts := by
    rw [Engine.cuts, (s.engine_opened rate c).2.1, ← Engine.cuts]
  rw [hsevered, hcuts]
  exact hs c

instance : Performs (Preserves Logged) :=
  .of_finer (fun _ _ => Uncut.logged) Uncut.of_unmoved
    (fun _ rate _ => along_openContext fun hs => hs.openContext rate)
    (fun s node time _ _ => (node.keeps_start time).mono (fun _ _ => Uncut.logged) s)
    fun _ _ hsound hnode => Ends.mono (severs_disconnect (.of_sound hsound hnode))
      (fun _ _ h => ⟨h.1.logged, trivial⟩) fun _ _ h => h.logged

namespace Session

variable {rate : Float} {commands : List Command} {id : NodeId} {node : Node} {t : Studio}

theorem logged_run (rate : Float) (hdirect : ∀ command ∈ commands, command.isDirect = false) :
    Logged (run rate commands).studio := by
  refine invariant_of_performs rate (fun c => ?_) hdirect
  have hnone : ((Studio.new rate).engine c).cuts = [] := by
    unfold Studio.engine
    cases c <;> rfl
  rw [hnone]
  exact .nil

-- A disconnection that a caller asks for is the next step of the session.
theorem run_disconnect (hnode : (run rate commands).studio.node? id = some node)
    (ht : node.disconnect (run rate commands).studio = .ok () t) :
    (run rate (commands ++ [.disconnect id])).studio = t ∧
      node ∈ (run rate (commands ++ [.disconnect id])).past.dropped := by
  have hact : (Command.disconnect id).act? (run rate commands).studio = some node.disconnect := by
    simp [Command.act?, hnode]
  rw [run_concat]
  constructor
  · rw [studio_perform hact, after, ht]
  · simp [perform, hact, Command.record, hnode]

-- Of what it reaches, all is disconnected then, and nothing else that was not so before.
theorem cut_iff_of_disconnect (hnode : (run rate commands).studio.node? id = some node)
    (ht : node.disconnect (run rate commands).studio = .ok () t) {inner : Node}
    (hinner : (run rate commands).studio.ledger.Knows inner) :
    (t.ledger.fate inner.id).cut = true ↔
      ((run rate commands).studio.ledger.fate inner.id).cut = true ∨ inner ∈ node.reach := by
  have hs : (run rate commands).studio.ledger.Sound 0 := (lawful_run rate commands).sound
  have hknown := (Studio.offers_of_node hs hnode).1.known
  have hwithin := (ends_of_ok ht (within_disconnect node _)).1
  have hsevers := (ends_of_ok ht (severs_disconnect (.of_sound hs hknown))).1
  obtain ⟨hnext, hdropped⟩ := run_disconnect hnode ht
  have hafter := lawful_run rate (commands ++ [.disconnect id])
  rw [moment, hnext] at hafter
  constructor
  · intro hcut
    refine (hwithin inner.id hcut).imp_right fun hmem => ?_
    obtain ⟨reached, hreach, hid⟩ := List.mem_map.1 hmem
    have hreached := hs.knows_of_reach hknown hreach
    rw [Ledger.Knows, ← hid, hreached] at hinner
    exact Option.some_inj.1 hinner ▸ hreach
  · rintro (hcut | hreach)
    · exact (hsevers.grows.fate _).cut hcut
    · have hroot : Moment.Reached ⟨t.ledger, [], (run rate (commands ++ [.disconnect id])).past⟩
          inner := ⟨node, .inl hdropped, hreach⟩
      exact (hafter.cuts.cut_iff hafter.sound rfl (hinner.grow hsevers.grows)).2 hroot

-- It logs the host nodes of what it reaches and was not disconnected before, each once.
theorem logs_of_disconnect (hnode : (run rate commands).studio.node? id = some node)
    (ht : node.disconnect (run rate commands).studio = .ok () t) (c : ContextId) :
    ∃ hosts : List HostId, (t.engine c).calls.toList =
        ((run rate commands).studio.engine c).calls.toList ++ hosts.map .disconnect ∧
      hosts.Nodup ∧ ∀ host, host ∈ hosts ↔ host ≠ Engine.destination ∧
        ∃ inner ∈ node.reach, inner.context = c ∧ host ∈ inner.ownHosts ∧
          (inner.state (run rate commands).studio).disconnected = false := by
  let s := (run rate commands).studio
  have hs : s.ledger.Sound 0 := (lawful_run rate commands).sound
  have hknown : s.ledger.Knows node := (Studio.offers_of_node hs hnode).1.known
  have hhoused : Housed s := housed_run rate commands
  have hsevers : Severs s t := (ends_of_ok ht (severs_disconnect (.of_sound hs hknown))).1
  have hafter := lawful_run rate (commands ++ [.disconnect id])
  have hhoused' := housed_run rate (commands ++ [.disconnect id])
  rw [moment, (run_disconnect hnode ht).1] at hafter
  rw [(run_disconnect hnode ht).1] at hhoused'
  have hkept : Kept s t := (ends_of_ok ht (Kept.keeps_disconnect node _)).1
  obtain ⟨hosts, hcalls, hperm⟩ := hsevers.calls c
  have hall : (s.severed c ++ hosts).Nodup :=
    hperm.nodup_iff.1 (Studio.nodup_severed hafter.sound hhoused' c)
  obtain ⟨-, hnodup, hdisjoint⟩ := List.nodup_append.1 hall
  refine ⟨hosts, hcalls, hnodup, fun host => ?_⟩
  have hmem : host ∈ hosts ↔ host ∈ t.severed c ∧ host ∉ s.severed c := by
    rw [hperm.mem_iff, List.mem_append]
    constructor
    · exact fun h => ⟨.inr h, fun h' => hdisjoint host h' host h rfl⟩
    · exact fun h => h.1.resolve_left h.2
  rw [hmem]
  constructor
  · rintro ⟨hin, hout⟩
    obtain ⟨other, inner, hother, hcut, hcontext, hhost⟩ := Studio.mem_severed.1 hin
    rw [hkept.nodes] at hother
    obtain ⟨hoffers, rfl⟩ := Studio.offers_of_node hs hother
    have hfresh : (s.ledger.fate inner.id).cut ≠ true := fun hbefore =>
      hout (Studio.mem_severed.2 ⟨inner.id, inner, hother, hbefore, hcontext, hhost⟩)
    refine ⟨?_, inner, ?_, hcontext, Node.mem_ownHosts_of_cut hhost, ?_⟩
    · rintro rfl
      exact (hs.formed hoffers.known).spares hhost
    · exact ((cut_iff_of_disconnect hnode ht hoffers.known).1 hcut).resolve_left hfresh
    · rw [Node.state_disconnected]
      exact Bool.not_eq_true _ ▸ hfresh
  · rintro ⟨hne, inner, hreach, hcontext, hown, hfresh⟩
    have hinner : s.ledger.Knows inner := hs.knows_of_reach hknown hreach
    have hthere : s.node? inner.id = some inner := Studio.node?_of_knows hinner
    have hhost := Node.mem_cutHosts_of_own hown hne
    rw [Node.state_disconnected] at hfresh
    constructor
    · have hcut := (cut_iff_of_disconnect hnode ht hinner).2 (.inr hreach)
      exact Studio.mem_severed.2
        ⟨inner.id, inner, (hkept.nodes _).trans hthere, hcut, hcontext, hhost⟩
    · intro hbefore
      obtain ⟨other, owner, howner, hcut, hcontext', hhost'⟩ := Studio.mem_severed.1 hbefore
      -- The host node has one owner, and that was not disconnected.
      have hsame := hhoused.apart inner.id other inner owner hthere howner
        (hs.formed hinner).opened (hcontext'.trans hcontext.symm) host hhost hhost'
      rw [← hsame, hfresh] at hcut
      cases hcut

-- Host nodes that nobody but nodes has disconnected are disconnected once at most.
theorem nodup_cuts (hdirect : ∀ command ∈ commands, command.isDirect = false) (c : ContextId) :
    ((run rate commands).studio.engine c).cuts.Nodup ∧
      Engine.destination ∉ ((run rate commands).studio.engine c).cuts := by
  have hs : (run rate commands).studio.ledger.Sound 0 := (lawful_run rate commands).sound
  have hperm := logged_run rate hdirect c
  have hnodup := Studio.nodup_severed hs (housed_run rate commands) c
  refine ⟨hperm.nodup_iff.2 hnodup, fun hmem => ?_⟩
  obtain ⟨id, node, hnode, -, -, hhost⟩ := Studio.mem_severed.1 (hperm.mem_iff.1 hmem)
  exact (hs.formed (Studio.offers_of_node hs hnode).1.known).spares hhost

-- Disconnection goes through everything, once, and spares the final output. What a node reaches
-- that is disconnected is disconnected too; disconnecting a node succeeds and logs the host nodes
-- of what it reaches and was not disconnected yet; and as long as nobody calls a host itself, no
-- host node is disconnected twice.
theorem disconnect_cascades (rate : Float) (commands : List Command) :
    (∀ id node, (run rate commands).studio.node? id = some node →
      (node.state (run rate commands).studio).disconnected = true →
      ∀ inner ∈ node.reach, (inner.state (run rate commands).studio).disconnected = true) ∧
    (∀ id node, (run rate commands).studio.node? id = some node →
      ∃ t, node.disconnect (run rate commands).studio = .ok () t ∧
        (∀ inner ∈ node.reach, (inner.state t).disconnected = true) ∧
        ∀ c, ∃ hosts : List HostId, (t.engine c).calls.toList =
            ((run rate commands).studio.engine c).calls.toList ++ hosts.map .disconnect ∧
          hosts.Nodup ∧ ∀ host, host ∈ hosts ↔ host ≠ Engine.destination ∧
            ∃ inner ∈ node.reach, inner.context = c ∧ host ∈ inner.ownHosts ∧
              (inner.state (run rate commands).studio).disconnected = false) ∧
    ((∀ command ∈ commands, command.isDirect = false) →
      ∀ c, ((run rate commands).studio.engine c).cuts.Nodup ∧
        Engine.destination ∉ ((run rate commands).studio.engine c).cuts) := by
  have hlawful := lawful_run rate commands
  have hs : (run rate commands).studio.ledger.Sound 0 := hlawful.sound
  refine ⟨fun id node hnode hcut inner hinner => ?_, fun id node hnode => ?_, nodup_cuts⟩
  · rw [Node.state_disconnected] at hcut ⊢
    exact hlawful.cuts.cut_of_reach hs rfl (Studio.offers_of_node hs hnode).1.known hcut hinner
  · have hknown := (Studio.offers_of_node hs hnode).1.known
    obtain ⟨⟨⟩, t, ht, -⟩ := exists_of_ends (Node.settles_disconnect hs hknown)
    refine ⟨t, ht, fun inner hinner => ?_, logs_of_disconnect hnode ht⟩
    rw [Node.state_disconnected]
    exact (cut_iff_of_disconnect hnode ht (hs.knows_of_reach hknown hinner)).2 (.inr hinner)

-- A tone whose frequency follows another, mixed with itself and played to the final output. The
-- tone itself is disconnected already.
def doubled : List Command := [
  .make 0 (.oscillator .sine (.fixed 5) none),
  .make 0 (.oscillator .sine (.node 0) none),
  .make 0 (.parallel 1 [1]),
  .make 0 .destination,
  .make 0 (.series 2 [3]),
  .disconnect 1]

theorem doubled_disconnected : ∃ tone node t, (run 44100 doubled).studio.node? 1 = some tone ∧
    (∀ inner ∈ tone.reach, (inner.state (run 44100 doubled).studio).disconnected = true) ∧
    (run 44100 doubled).studio.node? 4 = some node ∧
    node.disconnect (run 44100 doubled).studio = .ok () t ∧
    (∃ hosts : List HostId, (t.engine 0).calls.toList =
        ((run 44100 doubled).studio.engine 0).calls.toList ++ hosts.map .disconnect ∧
      hosts.Nodup ∧ ∀ host ∈ [0, 1, 2, 3, 4], host ∈ hosts ↔ host = 3 ∨ host = 4) ∧
    ((run 44100 doubled).studio.engine 0).cuts.Nodup := by
  have hall := disconnect_cascades 44100 doubled
  have htone : ((run 44100 doubled).studio.node? 1).isSome = true := by decide +kernel
  have hsome : ((run 44100 doubled).studio.node? 4).isSome = true := by decide +kernel
  obtain ⟨tone, htone⟩ := Option.isSome_iff_exists.1 htone
  obtain ⟨node, hnode⟩ := Option.isSome_iff_exists.1 hsome
  have hcut : ∀ tone ∈ (run 44100 doubled).studio.node? 1,
      (tone.state (run 44100 doubled).studio).disconnected = true := by decide +kernel
  obtain ⟨t, ht, -, hlogs⟩ := hall.2.1 4 node hnode
  obtain ⟨hosts, hcalls, hnodup, hmem⟩ := hlogs 0
  have hfacts : ∀ node ∈ (run 44100 doubled).studio.node? 4, ∀ host ∈ [0, 1, 2, 3, 4],
      (host ≠ Engine.destination ∧ ∃ inner ∈ node.reach, inner.context = 0 ∧
        host ∈ inner.ownHosts ∧ (inner.state (run 44100 doubled).studio).disconnected = false) ↔
      host = 3 ∨ host = 4 := by
    decide +kernel
  exact ⟨tone, node, t, htone, hall.1 1 tone htone (hcut tone htone), hnode, ht,
    ⟨hosts, hcalls, hnodup, fun host h => (hmem host).trans (hfacts node hnode host h)⟩,
    (hall.2.2 (by decide) 0).1⟩

end Session

end Patchbay
