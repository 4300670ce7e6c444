import Patchbay.Proofs.Ends.Delivery

namespace Patchbay

open Act

def Studio.started (s : Studio) (id : NodeId) : Bool := (s.nodes[id]?).any (·.started)

-- Nothing ends and nothing is disconnected; what was started stays so.
structure Sounding (s t : Studio) : Prop where
  fate : t.ledger.fate = s.ledger.fate
  grows : s.ledger.Grows t.ledger
  started : ∀ id, s.started id = true → t.started id = true

namespace Sounding

variable {s t : Studio}

theorem of_ledger (h : t.ledger = s.ledger)
    (hstarted : ∀ id, s.started id = true → t.started id = true) : Sounding s t :=
  ⟨by rw [h], h ▸ .refl _, hstarted⟩

instance : IsPreorder Studio Sounding where
  refl _ := of_ledger rfl fun _ h => h
  trans _ _ _ h h' := ⟨h'.fate.trans h.fate, h.grows.trans h'.grows,
    fun id hid => h'.started id (h.started id hid)⟩

theorem started_changeNode (id : NodeId) {f : NodeState → NodeState}
    (hf : ∀ state, state.started = true → (f state).started = true) (j : NodeId)
    (h : s.started j = true) :
    ({ s with nodes := s.nodes.modify id f } : Studio).started j = true := by
  unfold Studio.started at h ⊢
  rw [Array.getElem?_modify]
  split
  · obtain ⟨state, hstate, hstarted⟩ := (Option.any_eq_true _ _).1 h
    rw [hstate]
    exact hf state hstarted
  · exact h

theorem of_request {context : ContextId} {request : Request} {engine : Engine}
    (h : request.send (s.engine context) = .ok engine) :
    Sounding s { s with engines := s.engines.modify context fun _ => engine } := by
  have hledger := s.ledger_request h
  refine ⟨?_, ?_, fun _ hid => hid⟩
  · rw [hledger, Ledger.fate_setHost]
  · rw [hledger]
    exact s.ledger.grows_setHost context request.host request.grows_mark

instance : Plays Sounding where
  request _ _ _ := along_host fun _ h => ⟨of_request h, trivial⟩
  started id := keeps_modify fun s => of_ledger (s.ledger_changeNode_eq id fun _ => rfl)
    (started_changeNode id fun _ _ => rfl)
  connected id _ := keeps_modify fun s => of_ledger (s.ledger_changeNode_eq id fun _ => rfl)
    (started_changeNode id fun _ h => h)
  stopped inst voice := keeps_modify fun s => of_ledger
    (s.ledger_changeInstrument_eq inst fun i => i.roster_markStopped voice) fun _ hid => hid

end Sounding

-- A host takes a stop from a source that it has started, and from no other.
theorem Engine.started_of_stop {engine after : Engine} {host : HostId} {time : Float}
    (h : engine.stop host time = .ok after) :
    (engine.nodes[host]?).any (fun node => node.startedAt.isSome) = true := by
  obtain ⟨node, hnode, h⟩ := ok_of_bind h
  obtain ⟨hstarted, -⟩ := ok_of_check h
  rw [Engine.find_eq_ok.1 hnode]
  cases hat : node.startedAt <;> simp_all

-- The host node has a time to start and a time to stop.
def Ledger.HostTimed (L : Ledger) (context : ContextId) (host : HostId) : Prop :=
  (L.host context host).any (fun fate => fate.starts && fate.stops) = true

theorem Ledger.HostTimed.grow {L M : Ledger} {context : ContextId} {host : HostId}
    (h : L.HostTimed context host) (hLM : L.Grows M) : M.HostTimed context host := by
  obtain ⟨fate, hfate, htimed⟩ := (Option.any_eq_true _ _).1 h
  obtain ⟨fate', hfate', hgrows⟩ := hLM.host context host fate hfate
  rw [Bool.and_eq_true] at htimed
  rw [HostTimed, hfate', Option.any_some, Bool.and_eq_true]
  exact ⟨hgrows.starts htimed.1, hgrows.stops htimed.2⟩

namespace Node

variable {s t : Studio} {node : Node}

-- Every source that it reaches is marked as started.
def Marked (node : Node) (s : Studio) : Prop :=
  ∀ leaf ∈ node.reach, leaf.source?.isSome → s.started leaf.id = true

theorem Marked.keep (h : node.Marked s) (hst : Sounding s t) : node.Marked t :=
  fun leaf hleaf hsource => hst.started leaf.id (h leaf hleaf hsource)

-- What no start reaches has no source.
theorem marked_of_not_startable (h : ¬node.isStartable = true) : node.Marked s :=
  fun _ hleaf hsource => absurd (isStartable_of_reach_source hleaf hsource) h

theorem state_started (node : Node) : (node.state s).started = s.started node.id := by
  rw [state, Studio.started]
  cases s.nodes[node.id]? <;> rfl

theorem along_startSource {host : HostId} {time : Float} (hnode : s.ledger.Knows node) :
    Along Sounding (node.startSource host time) s fun _ t => t.started node.id = true := by
  unfold startSource
  refine along_read ?_
  split
  case isTrue hstarted => exact along_pure (node.state_started ▸ hstarted)
  case isFalse =>
      have hmark : Along Sounding (changeNode node.id fun state => { state with started := true }) s
          fun _ t => t.started node.id = true := by
        have h := Plays.started (R := Sounding) node.id s
        unfold Along changeNode at h ⊢
        rw [ends_modify] at h ⊢
        refine ⟨h.1, ?_⟩
        simp [Studio.started, Array.getElem?_modify,
          Array.getElem?_eq_getElem (Studio.lt_of_knows hnode)]
      exact along_bind hmark fun _ t _ ht =>
        (Plays.request node.context (.start host time) t).mono fun _ u htu _ => htu.started _ ht

theorem along_startAll {time : Float} {nodes : List Node}
    (h : ∀ node ∈ nodes, ∀ t, Sounding s t → Along Sounding (node.start time) t fun _ => node.Marked) :
    Along Sounding (startAll nodes time) s fun _ t => ∀ node ∈ nodes, node.Marked t := by
  induction nodes generalizing s with
  | nil => exact along_pure (by simp)
  | cons node rest ih =>
      have hrest {t : Studio} (hst : Sounding s t) (hnode : node.Marked t) :
          Along Sounding (startAll rest time) t fun _ u => ∀ other ∈ node :: rest, other.Marked u := by
        refine (ih fun other hother u htu => ?_).mono fun _ u htu hmarked => ?_
        · exact h other (List.mem_cons_of_mem _ hother) u (trans_of Sounding hst htu)
        · exact List.forall_mem_cons.2 ⟨hnode.keep htu, hmarked⟩
      rw [startAll]
      split
      case isTrue =>
          refine along_bind (h node List.mem_cons_self s (refl s)) fun _ t hst hnode => ?_
          exact hrest hst hnode
      case isFalse hstart => exact hrest (refl s) (marked_of_not_startable hstart)

theorem stopAll_eq (nodes : List Node) (time : Float) :
    stopAll nodes time = (nodes.filter isStartable).forM (·.stop time) := by
  induction nodes with
  | nil => rfl
  | cons node rest ih => by_cases h : node.isStartable <;> simp [stopAll, ih, h]

theorem startAll_eq (nodes : List Node) (time : Float) :
    startAll nodes time = (nodes.filter isStartable).forM (·.start time) := by
  induction nodes with
  | nil => rfl
  | cons node rest ih => by_cases h : node.isStartable <;> simp [startAll, ih, h]

-- What the start of a node does to the node itself, before its parts are started.
def startOwn (node : Node) (time : Float) : Act Unit :=
  match node with
  | .leaf info host source params modulators =>
    if source then startSource (.leaf info host source params modulators) host time else pure ()
  | .envelope info host attack _ => do
    changeNode info.id fun state => { state with started := true }
    attack.schedule info.context host .gain time
  | .series _ _ _ | .parallel _ _ _ _ | .wrapped _ _ _ => pure ()

theorem start_eq (node : Node) (time : Float) : node.start time = (do
    node.checkTime time
    node.startOwn time
    startAll node.parts time
    node.stopAtEnd time) := by
  cases node with
  | leaf info host source params modulators =>
      rw [start]
      cases source <;> simp [startOwn, parts]
  | envelope info host attack release =>
      rw [start]
      simp [startOwn, parts, startAll]
  | series info head tail =>
      rw [start]
      by_cases h : head.isStartable <;> simp [startOwn, parts, startAll, h]
  | parallel info input output branches =>
      rw [start]
      simp [startOwn, parts]
  | wrapped info inner others =>
      rw [start]
      by_cases h : inner.isStartable <;> simp [startOwn, parts, startAll, h]

-- What the stop of a node does to the node itself, before its parts are stopped.
def stopOwn (node : Node) (time : Float) : Act Unit :=
  match node with
  | .leaf info host true params modulators =>
    stopSource (.leaf info host true params modulators) host time
  | .envelope info host _ (some release) => release.schedule info.context host .gain time
  | _ => pure ()

-- A series is stopped from its end on, and its head last.
def stopParts (node : Node) (time : Float) : Act Unit :=
  match node with
  | .series _ head tail => do stopAll [head] (← stopChain tail time)
  | _ => stopAll node.parts time

theorem stop_eq (node : Node) (time : Float) : node.stop time = (do
    node.checkTime time
    if (node.state (← get)).disconnected then return
    node.stopOwn time
    node.stopParts time) := by
  cases node with
  | leaf info host source params modulators =>
      rw [stop]
      cases source <;> simp [stopOwn, stopParts, parts]
  | envelope info host attack release =>
      cases release <;> rw [stop] <;> simp [stopOwn, stopParts, parts, stopAll]
  | series info head tail =>
      rw [stop]
      simp [stopOwn, stopParts, stopAll]
  | parallel info input output branches =>
      rw [stop]
      simp [stopOwn, stopParts, parts]
  | wrapped info inner others =>
      rw [stop]
      by_cases h : inner.isStartable <;> simp [stopOwn, stopParts, parts, stopAll, h]

theorem stopOwn_of_source {host : HostId} {time : Float} (hsource : node.source? = some host) :
    node.stopOwn time = node.stopSource host time := by
  cases node with
  | leaf info own source params modulators =>
      cases source with
      | true =>
          cases hsource
          rfl
      | false => cases hsource
  | envelope | series | parallel | wrapped => cases hsource

section Stops

variable {R : Studio → Studio → Prop} {time : Float}

theorem keeps_stopOwn [Stops R] (node : Node) (time : Float) : Keeps R (node.stopOwn time) := by
  unfold stopOwn
  split
  case h_1 => exact keeps_stopSource _ _ time
  case h_2 release => exact release.keeps_schedule _ _ _ _
  case h_3 => exact keeps_pure _

variable [IsPreorder Studio R]

theorem along_checkTime :
    Along R (node.checkTime time) s fun _ t => t = s ∧ time.isFinite = true := by
  unfold checkTime
  split
  case isTrue => exact along_throw _
  case isFalse hfinite => exact along_pure ⟨rfl, by simpa using hfinite⟩

-- A stop has nothing to do for a node that is disconnected.
theorem along_stop_of_steps {ok : Unit → Studio → Prop}
    (hcut : (node.state s).disconnected = true → ok () s)
    (hsteps : (node.state s).disconnected = false → time.isFinite = true →
      Along R (do node.stopOwn time; node.stopParts time) s ok) : Along R (node.stop time) s ok := by
  rw [stop_eq]
  refine along_bind along_checkTime fun _ t _ ⟨ht, hfinite⟩ => ?_
  subst ht
  refine along_read ?_
  split
  case isTrue hdisconnected => exact along_pure (hcut hdisconnected)
  case isFalse hconnected => exact hsteps (Bool.eq_false_iff.2 hconnected) hfinite

end Stops

theorem along_startOwn {time : Float} (hnode : s.ledger.Knows node) :
    Along Sounding (node.startOwn time) s
      fun _ t => node.source?.isSome → t.started node.id = true := by
  cases node with
  | leaf info host source params modulators =>
      cases source with
      | true => exact (along_startSource hnode).mono fun _ _ _ h _ => h
      | false => exact along_pure (by simp [source?])
  | envelope info host attack release =>
      refine (keeps_bind (Plays.started info.id) fun _ => ?_ : Keeps Sounding _) s |>.mono ?_
      · exact attack.keeps_schedule _ _ _ _
      · simp [source?]
  | series | parallel | wrapped => exact along_pure (by simp [source?])

-- Every source that it reaches has a time to start and a time to stop.
def Timed (node : Node) (L : Ledger) : Prop :=
  ∀ leaf ∈ node.reach, ∀ host, leaf.source? = some host → L.HostTimed leaf.context host

theorem Timed.grow {L M : Ledger} (h : node.Timed L) (hLM : L.Grows M) : node.Timed M :=
  fun leaf hleaf host hsource => (h leaf hleaf host hsource).grow hLM

-- What no stop passes by.
structure Playing (node : Node) (s : Studio) : Prop where
  marked : node.Marked s
  connected : ∀ inner ∈ node.reach, (s.ledger.fate inner.id).cut = false

theorem Playing.keep (h : node.Playing s) (hst : Sounding s t) : node.Playing t where
  marked := h.marked.keep hst
  connected inner hinner := by
    rw [hst.fate]
    exact h.connected inner hinner

theorem Playing.part (h : node.Playing s) {part : Node} (hpart : part ∈ node.parts) :
    part.Playing s where
  marked leaf hleaf := h.marked leaf (reach_trans hleaf (part_mem_reach hpart))
  connected inner hinner := h.connected inner (reach_trans hinner (part_mem_reach hpart))

theorem timed_of_not_startable {L : Ledger} (h : ¬node.isStartable = true) : node.Timed L :=
  fun _ hleaf _ hsource => absurd
    (isStartable_of_reach_source hleaf (Option.isSome_iff_exists.2 ⟨_, hsource⟩)) h

-- A node is timed when all that it is made of is.
theorem timed_of_parts {L : Ledger}
    (hself : ∀ host, node.source? = some host → L.HostTimed node.context host)
    (hparts : ∀ part ∈ node.parts, part.Timed L) : node.Timed L := by
  intro leaf hleaf host hsource
  rcases mem_reach.1 hleaf with rfl | ⟨part, hpart, hreach⟩
  · exact hself host hsource
  · exact hparts part hpart leaf hreach host hsource

theorem along_stopSource {host : HostId} {time : Float} (hstarted : (node.state s).started = true) :
    Along Sounding (node.stopSource host time) s
      fun _ t => t.ledger.HostTimed node.context host := by
  unfold stopSource
  refine along_read ?_
  rw [if_pos hstarted]
  refine along_host fun engine h => ?_
  have hsend : (Request.stop host time).send (s.engine node.context) = .ok engine := h
  have hstarts : (s.ledger.host node.context host).any HostFate.starts = true := by
    rw [s.any_host rfl]
    exact Engine.started_of_stop h
  refine ⟨Sounding.of_request hsend, ?_⟩
  rw [s.ledger_request hsend, Ledger.HostTimed, Ledger.host_setHost, if_pos ⟨rfl, rfl⟩,
    Option.any_map]
  simpa [Function.comp_def, Request.mark, Request.host] using hstarts

section Stop

variable {nodes : List Node}

-- The parts of a node, each at any time.
def StopsTimed (nodes : List Node) (s : Studio) : Prop :=
  ∀ node ∈ nodes, ∀ time t, Sounding s t →
    Along Sounding (node.stop time) t fun _ u => node.Timed u.ledger

theorem along_stopAll {time : Float} (h : StopsTimed nodes s) :
    Along Sounding (stopAll nodes time) s fun _ t => ∀ node ∈ nodes, node.Timed t.ledger := by
  induction nodes generalizing s with
  | nil => exact along_pure (by simp)
  | cons node rest ih =>
      have hrest {t : Studio} (hst : Sounding s t) (hnode : node.Timed t.ledger) :
          Along Sounding (stopAll rest time) t
            fun _ u => ∀ other ∈ node :: rest, other.Timed u.ledger := by
        refine (ih fun other hother time u htu => ?_).mono fun _ u htu hall => ?_
        · exact h other (List.mem_cons_of_mem _ hother) time u (trans_of Sounding hst htu)
        · exact List.forall_mem_cons.2 ⟨hnode.grow htu.grows, hall⟩
      rw [stopAll]
      split
      case isTrue =>
          refine along_bind (h node List.mem_cons_self time s (refl s)) fun _ t hst hnode => ?_
          exact hrest hst hnode
      case isFalse hstart => exact hrest (refl s) (timed_of_not_startable hstart)

-- The same from the end of a chain.
theorem along_stopChain {time : Float} (h : StopsTimed nodes s) :
    Along Sounding (stopChain nodes time) s fun _ t => ∀ node ∈ nodes, node.Timed t.ledger := by
  induction nodes generalizing s with
  | nil => exact along_pure (by simp)
  | cons node rest ih =>
      have hrest := ih (s := s) fun other hother => h other (List.mem_cons_of_mem _ hother)
      rw [stopChain]
      refine along_bind hrest fun at' t hst hall => ?_
      split
      case isTrue =>
          refine along_bind (h node List.mem_cons_self at' t hst) fun _ u htu hnode => along_pure ?_
          exact List.forall_mem_cons.2 ⟨hnode, fun other hother => (hall other hother).grow htu.grows⟩
      case isFalse hstart =>
          exact along_pure (List.forall_mem_cons.2 ⟨timed_of_not_startable hstart, hall⟩)

theorem along_stopParts {time : Float} (h : StopsTimed node.parts s) :
    Along Sounding (node.stopParts time) s fun _ t => ∀ part ∈ node.parts, part.Timed t.ledger := by
  unfold stopParts
  split
  case h_1 info head tail =>
      have htail : StopsTimed tail s := fun part hpart => h part (List.mem_cons_of_mem head hpart)
      refine along_bind (along_stopChain htail) fun later t hst hall => ?_
      have hhead : StopsTimed [head] t := fun part hpart time u htu => by
        obtain rfl := List.mem_singleton.1 hpart
        exact h part List.mem_cons_self time u (trans_of Sounding hst htu)
      refine (along_stopAll hhead).mono fun _ u htu hone => ?_
      refine List.forall_mem_cons.2 ⟨hone head List.mem_cons_self, fun part hpart => ?_⟩
      exact (hall part hpart).grow htu.grows
  case h_2 => exact along_stopAll h

end Stop

theorem along_stopOwn {time : Float}
    (hstarted : node.source?.isSome → (node.state s).started = true) :
    Along Sounding (node.stopOwn time) s
      fun _ t => ∀ host, node.source? = some host → t.ledger.HostTimed node.context host := by
  cases hsource : node.source? with
  | none => exact (keeps_stopOwn node time s).mono fun _ _ _ _ host hhost => by cases hhost
  | some host =>
      rw [stopOwn_of_source hsource]
      refine (along_stopSource (hstarted (by rw [hsource]; rfl))).mono fun _ t _ htimed other hother => ?_
      obtain rfl := Option.some_inj.1 hother
      exact htimed

theorem along_stop {time : Float} (hplaying : node.Playing s) :
    Along Sounding (node.stop time) s fun _ t => node.Timed t.ledger := by
  induction node using induct generalizing s time with
  | step node ih =>
      refine along_stop_of_steps (fun hcut => ?_) fun _ _ => ?_
      · rw [state_disconnected, hplaying.connected node (self_mem_reach node)] at hcut
        cases hcut
      · have hstarted (hsource : node.source?.isSome) : (node.state s).started = true := by
          rw [state_started]
          exact hplaying.marked node (self_mem_reach node) hsource
        refine along_bind (along_stopOwn hstarted) fun _ t hst hself => ?_
        have hparts : StopsTimed node.parts t := fun part hpart time u htu =>
          ih part hpart ((hplaying.part hpart).keep (trans_of Sounding hst htu))
        refine (along_stopParts hparts).mono fun _ u htu hall => ?_
        exact timed_of_parts (fun host hhost => (hself host hhost).grow htu.grows) hall

theorem along_stopAtEnd {time : Float} (hplaying : node.Playing s) :
    Along Sounding (node.stopAtEnd time) s
      fun _ t => node.duration.isSome = true → node.Timed t.ledger := by
  unfold stopAtEnd
  split
  case h_1 => exact (along_stop hplaying).mono fun _ _ _ h _ => h
  case h_2 hnone => exact along_pure (by simp [hnone])

-- A start leaves nothing out, and what has a length is given its end with it.
theorem along_start {time : Float} (hknown : ∀ inner ∈ node.reach, s.ledger.Knows inner)
    (hconnected : ∀ inner ∈ node.reach, (s.ledger.fate inner.id).cut = false) :
    Along Sounding (node.start time) s
      fun _ t => node.Playing t ∧ (node.duration.isSome = true → node.Timed t.ledger) := by
  induction node using induct generalizing s with
  | step node ih =>
      rw [start_eq]
      refine along_bind (keeps_checkTime node time s) fun _ t hst _ => ?_
      have hself := (hknown node (self_mem_reach node)).grow hst.grows
      refine along_bind (along_startOwn hself) fun _ u htu hmarked => ?_
      have hsu : Sounding s u := trans_of Sounding hst htu
      have hparts : Along Sounding (startAll node.parts time) u
          fun _ v => ∀ part ∈ node.parts, part.Marked v := by
        refine along_startAll fun part hpart v huv => ?_
        have hsv := trans_of Sounding hsu huv
        have hreach {inner : Node} (hinner : inner ∈ part.reach) : inner ∈ node.reach :=
          reach_trans hinner (part_mem_reach hpart)
        refine (ih part hpart (fun inner hinner => ?_) fun inner hinner => ?_).mono
          fun _ w _ h => h.1.marked
        · exact (hknown inner (hreach hinner)).grow hsv.grows
        · rw [hsv.fate]
          exact hconnected inner (hreach hinner)
      refine along_bind hparts fun _ v huv hall => ?_
      have hplaying : node.Playing v := by
        refine ⟨fun leaf hleaf hsource => ?_, fun inner hinner => ?_⟩
        · rcases mem_reach.1 hleaf with rfl | ⟨part, hpart, hreach⟩
          · exact huv.started _ (hmarked hsource)
          · exact hall part hpart leaf hreach hsource
        · rw [(trans_of Sounding hsu huv).fate]
          exact hconnected inner hinner
      exact (along_stopAtEnd hplaying).mono fun _ w hvw h => ⟨hplaying.keep hvw, h⟩

end Node

end Patchbay
