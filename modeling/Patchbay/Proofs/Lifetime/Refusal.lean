import Patchbay.Proofs.Lifetime.StartedSources

namespace Patchbay

open Act

section Engine

variable {engine : Engine} {host : HostId} {node : HostNode}

theorem Engine.schedule_gain (hkind : (engine.nodes[host]?).map HostNode.kind = some (some .gain))
    (event : Automation) : ∃ after, engine.schedule host .gain event = .ok after := by
  obtain ⟨node, hnode, hgain⟩ := Option.map_eq_some_iff.1 hkind
  have hparam : node.hasParam .gain = true := by
    rw [HostNode.hasParam, HostNode.params, hgain]
    rfl
  refine ⟨engine.record (.schedule host .gain event), ?_⟩
  simp only [schedule, find_eq_ok.2 hnode]
  change (if (!node.hasParam .gain) = true then _ else _) = _
  rw [hparam]
  rfl

theorem Engine.stop_started (hstart : (engine.nodes[host]?).any (·.startedAt.isSome) = true)
    (time : Float) : ∃ after, engine.stop host time = .ok after := by
  obtain ⟨node, hnode, hstarted⟩ := (Option.any_eq_true _ _).1 hstart
  refine ⟨(engine.change host fun node => { node with stopAt := some time }).record
    (.stop host time), ?_⟩
  have hsome : node.startedAt.isNone = false := by
    rw [← Option.not_isSome, hstarted]
    rfl
  simp only [stop, find_eq_ok.2 hnode]
  change (if node.startedAt.isNone = true then _ else _) = _
  rw [hsome]
  rfl

-- A source is started, unless it has been.
theorem Engine.start_source (hnode : engine.nodes[host]? = some node)
    (hsource : node.isSource = true) (time : Float) :
    engine.start host time = if node.startedAt.isSome then .error (.startedAlready node.name host)
      else .ok ((engine.change host fun node => { node with startedAt := some time }).record
        (.start host time)) := by
  simp only [start, find_eq_ok.2 hnode]
  change (if (!node.isSource) = true then _ else _) = _
  rw [hsource]
  cases node.startedAt <;> rfl

end Engine

-- All is in place.
structure Fit (s : Studio) : Prop where
  housed : Housed s
  matched : Matched s

-- What holds across starts and stops of nodes that stand as they were made.
structure Begins (s t : Studio) : Prop where
  grows : s.ledger.Grows t.ledger
  kept : Kept s t
  matched : Matched s → Matched t

namespace Begins

variable {s t : Studio}

instance : IsPreorder Studio Begins where
  refl s := ⟨.refl _, refl s, id⟩
  trans _ _ _ h h' :=
    ⟨h.grows.trans h'.grows, trans_of Kept h.kept h'.kept, h'.matched ∘ h.matched⟩

theorem fit (h : Begins s t) (hs : Fit s) : Fit t := ⟨h.kept.housed hs.housed, h.matched hs.matched⟩

theorem of_request {context : ContextId} {request : Request} {engine : Engine}
    (hstart : request.isStart = false) (h : request.send (s.engine context) = .ok engine) :
    Begins s { s with engines := s.engines.modify context fun _ => engine } where
  grows := (Sounding.of_request h).grows
  kept := .of_touch context request.host (Request.nodes_send h).2 fun _ => by cases request <;> rfl
  matched := (Unbegun.of_request hstart h).matched

end Begins

-- A time that cannot be kept, for a node that this one reaches.
def Node.Untimely (root : Node) (e : Error) : Prop :=
  ∃ inner ∈ root.reach, ∃ x : Float, x.isFinite = false ∧ e = .invalidTime inner.label x

-- What the node reaches stands as it was made; given `P`, all is in place.
structure Poised (root : Node) (P : Prop) (s : Studio) : Prop where
  stands : s.ledger.Stands root
  fit : P → Fit s

-- Whatever comes of the act, a studio that is poised stays so. Given `P`, it fails for a time at
-- most.
def Granted (root : Node) (P : Prop) {α : Type} (act : Act α) (s : Studio) : Prop :=
  Ends act s (fun _ t => Begins s t) fun e t => Begins s t ∧ (P → root.Untimely e)

section Granted

variable {root node : Node} {P : Prop} {s t : Studio} {α β : Type} {time : Float}

theorem Poised.step (h : Poised root P s) (hst : Begins s t) : Poised root P t :=
  ⟨h.stands.grow hst.grows, fun hP => hst.fit (h.fit hP)⟩

theorem granted_pure (a : α) : Granted root P (pure a) s := by
  rw [Granted, ends_pure]
  exact refl s

theorem granted_bind {act : Act β} {next : β → Act α} (h : Granted root P act s)
    (hnext : ∀ b t, Begins s t → Granted root P (next b) t) : Granted root P (act >>= next) s := by
  rw [Granted, ends_bind]
  refine Ends.mono h (fun b t hst => ?_) fun _ _ h => h
  refine Ends.mono (hnext b t hst) (fun _ u htu => ?_) fun _ u hu => ?_
  · exact trans_of Begins hst htu
  · exact ⟨trans_of Begins hst hu.1, hu.2⟩

theorem granted_read {next : Studio → Act α} (h : Granted root P (next s) s) :
    Granted root P (get >>= next) s := by
  rw [Granted, ends_bind, ends_get]
  exact h

theorem granted_checkTime (hnode : node ∈ root.reach) : Granted root P (node.checkTime time) s := by
  unfold Node.checkTime
  split
  case isTrue h =>
      rw [Granted, ends_throw]
      have hinfinite : time.isFinite = false := by simpa using h
      exact ⟨refl s, fun _ => ⟨node, hnode, time, hinfinite, rfl⟩⟩
  case isFalse => exact granted_pure _

-- A request that the host grants when all is in place.
theorem granted_host {context : ContextId} (request : Request) (hstart : request.isStart = false)
    (hgrants : P → ∃ after, request.send (s.engine context) = .ok after) :
    Granted root P (Act.host context request.send) s := by
  refine ends_host (fun after h => Begins.of_request hstart h) fun fault hfault => ?_
  refine ⟨refl s, fun hP => ?_⟩
  obtain ⟨after, hafter⟩ := hgrants hP
  rw [hafter] at hfault
  cases hfault

-- The level of a gain can be moved at any time.
theorem granted_schedule {context : ContextId} {host : HostId} (contour : Contour)
    (hkind : P → s.kind? context host = some (some .gain)) :
    Granted root P (contour.schedule context host .gain time) s := by
  have hstages (stages : List Stage) : ∀ (s : Studio) (time : Float),
      (P → s.kind? context host = some (some .gain)) →
      Granted root P (Contour.scheduleStages context host .gain time stages) s := by
    induction stages with
    | nil => exact fun _ _ _ => granted_pure _
    | cons stage rest ih =>
        intro s time hkind
        let event : Automation := ⟨stage.curve, stage.target, time + stage.duration⟩
        have hfirst : Granted root P (Act.host context (·.schedule host .gain event)) s :=
          granted_host (.schedule host .gain event) rfl fun hP => Engine.schedule_gain (hkind hP) event
        refine granted_bind hfirst fun _ t hst => ih t _ fun hP => ?_
        exact hst.kept.kinds context host _ (hkind hP)
  exact granted_bind (granted_read (granted_pure _)) fun now t hst =>
    hstages contour.stages t _ fun hP => hst.kept.kinds context host _ (hkind hP)

namespace Node

theorem mem_ownHosts_of_source {host : HostId} (h : node.source? = some host) :
    host ∈ node.ownHosts := by
  cases node with
  | leaf info own source params modulators =>
      cases source with
      | true => simpa [source?, ownHosts, eq_comm] using h
      | false => cases h
  | envelope | series | parallel | wrapped => cases h

end Node

variable {host : HostId}

-- The host node of a source is there, and is a source.
theorem Studio.host_of_source (hformed : s.ledger.Formed node) (hsource : node.source? = some host) :
    ∃ hostNode, (s.engine node.context).nodes[host]? = some hostNode ∧ hostNode.isSource = true := by
  obtain ⟨fate, kind, hfate, hkind, hsounds⟩ := hformed.source host hsource
  rw [s.host_eq hformed.opened, Engine.hosts] at hfate
  obtain ⟨hostNode, hthere, rfl⟩ := Option.map_eq_some_iff.1 hfate
  have hkind : hostNode.kind = some kind := hkind
  exact ⟨hostNode, hthere, by rw [HostNode.isSource, hkind]; exact hsounds⟩

theorem Studio.begun?_eq (hknown : s.ledger.Knows node) (hsource : node.source? = some host) :
    s.begun? node.id = if s.started node.id then some (node.context, host) else none := by
  obtain ⟨state, hstate, rfl⟩ := state_of_knows hknown
  rw [begun?, started, hstate, Option.bind_some, NodeState.begun?, hsource]
  rfl

-- The final output is no source.
theorem Housed.ne_destination (hs : Housed s) (hformed : s.ledger.Formed node)
    (hsource : node.source? = some host) : host ≠ Engine.destination := by
  rintro rfl
  obtain ⟨hostNode, hthere, hsounds⟩ := s.host_of_source hformed hsource
  have houtput := hs.outputs node.context
  rw [Studio.kind?, hthere, Option.map_some, Option.some_inj] at houtput
  rw [HostNode.isSource, houtput] at hsounds
  cases hsounds

-- The host node of a source is no other node's.
theorem Housed.owner (hs : Housed s) (hknown : s.ledger.Knows node) (hformed : s.ledger.Formed node)
    (hsource : node.source? = some host) {id : NodeId} {other : Node}
    (hother : s.node? id = some other) (hcontext : other.context = node.context)
    (hown : other.source? = some host) : id = node.id := by
  have hne := hs.ne_destination hformed hsource
  have hnode := Node.mem_cutHosts_of_own (Node.mem_ownHosts_of_source hsource) hne
  have hother' := Node.mem_cutHosts_of_own (Node.mem_ownHosts_of_source hown) hne
  exact (hs.apart node.id id node other (Studio.node?_of_knows hknown) hother hformed.opened hcontext
    host hnode hother').symm

theorem Fit.owner (hs : Fit s) (hknown : s.ledger.Knows node) (hformed : s.ledger.Formed node)
    (hsource : node.source? = some host) {id : NodeId}
    (hbegun : s.begun? id = some (node.context, host)) : id = node.id := by
  obtain ⟨state, hstate, hbegun⟩ := Option.bind_eq_some_iff.1 hbegun
  unfold NodeState.begun? at hbegun
  split at hbegun
  case isFalse => cases hbegun
  case isTrue =>
      obtain ⟨own, hown, heq⟩ := Option.map_eq_some_iff.1 hbegun
      obtain ⟨hcontext, rfl⟩ := Prod.mk.inj heq
      have hthere : s.node? id = some state.node := by rw [Studio.node?, hstate]; rfl
      exact hs.housed.owner hknown hformed hsource hthere hcontext hown

-- The host has one more start, for a node that has been started meanwhile.
theorem Matched.mark (hs : Matched s) (hfresh : s.begun? node.id = none)
    (hnodes : ∀ id, t.begun? id = if id = node.id then some (node.context, host) else s.begun? id)
    (hhosts : ∀ c h, t.hasStart c h = true ↔
      s.hasStart c h = true ∨ c = node.context ∧ h = host) : Matched t := by
  intro c h
  rw [hhosts, hs c h]
  constructor
  · rintro (⟨id, hid⟩ | ⟨rfl, rfl⟩)
    · refine ⟨id, ?_⟩
      have hne : id ≠ node.id := by
        rintro rfl
        rw [hfresh] at hid
        cases hid
      rwa [hnodes, if_neg hne]
    · exact ⟨node.id, by rw [hnodes, if_pos rfl]⟩
  · rintro ⟨id, hid⟩
    rw [hnodes] at hid
    split at hid
    case isTrue =>
        cases hid
        exact .inr ⟨rfl, rfl⟩
    case isFalse => exact .inl ⟨id, hid⟩

theorem Studio.begun?_mark (hknown : s.ledger.Knows node) (hsource : node.source? = some host)
    (id : NodeId) : ({ s with nodes := s.nodes.modify node.id fun state =>
      { state with started := true } } : Studio).begun? id =
        if id = node.id then some (node.context, host) else s.begun? id := by
  obtain ⟨state, hstate, rfl⟩ := state_of_knows hknown
  by_cases hid : id = state.node.id
  · subst hid
    rw [begun?, Array.getElem?_modify, if_pos rfl, hstate]
    simp [NodeState.begun?, hsource]
  · simp [begun?, Array.getElem?_modify, hid, Ne.symm hid]

theorem Studio.hasStart_start {context : ContextId} {engine : Engine} {x : Float}
    (hc : context < s.engines.size) (hthere : ((s.engine context).nodes[host]?).isSome)
    (hnodes : engine.nodes = (s.engine context).nodes.modify host fun node =>
      { node with startedAt := some x }) (c : ContextId) (h : HostId) :
    ({ s with engines := s.engines.modify context fun _ => engine } : Studio).hasStart c h = true ↔
      s.hasStart c h = true ∨ c = context ∧ h = host := by
  rw [hasStart, s.engine_setEngine]
  by_cases heq : context = c
  · subst heq
    rw [if_pos ⟨rfl, hc⟩, hnodes, Array.getElem?_modify]
    by_cases hh : host = h
    · subst hh
      obtain ⟨node, hnode⟩ := Option.isSome_iff_exists.1 hthere
      simp [hnode]
    · simp [hh, Ne.symm hh, hasStart]
  · simp [heq, Ne.symm heq, hasStart]

-- A source that is started is marked and then started by its host, which has not done so before.
theorem granted_startSource (hs : Poised root P s) (hnode : node ∈ root.reach)
    (hsource : node.source? = some host) : Granted root P (node.startSource host time) s := by
  obtain ⟨hknown, hformed⟩ := hs.stands node hnode
  obtain ⟨hostNode, hthere, hsounds⟩ := s.host_of_source hformed hsource
  refine granted_read ?_
  rw [Node.state_started]
  split
  case isTrue => exact granted_pure _
  case isFalse hunmarked =>
      let marked : Studio := { s with nodes := s.nodes.modify node.id fun state =>
        { state with started := true } }
      have hfresh : s.begun? node.id = none := by
        rw [Studio.begun?_eq hknown hsource, if_neg hunmarked]
      have hkept : Kept s marked := .of_change node.id fun _ => rfl
      have hledger : marked.ledger = s.ledger := s.ledger_changeNode_eq node.id fun _ => rfl
      have hstarts := Engine.start_source hthere hsounds time
      rw [Granted, ends_bind, changeNode, ends_modify]
      refine ends_host (fun after hafter => ?_) fun fault hfault => ?_
      · have hsend : (Request.start host time).send (s.engine node.context) = .ok after := hafter
        have hplays : Sounding marked { marked with
            engines := marked.engines.modify node.context fun _ => after } := .of_request hsend
        obtain ⟨-, hnodes⟩ := Request.nodes_send hsend
        refine ⟨hledger ▸ hplays.grows, trans_of Kept hkept ?_, fun hmatched => ?_⟩
        · exact .of_touch node.context host hnodes fun _ => rfl
        · refine hmatched.mark hfresh (Studio.begun?_mark hknown hsource) ?_
          have hthere : ((s.engine node.context).nodes[host]?).isSome := by simp [hthere]
          exact marked.hasStart_start hformed.opened hthere hnodes
      · change (s.engine node.context).start host time = .error fault at hfault
        have hbefore : s.hasStart node.context host = true := by
          rw [Studio.hasStart, hthere]
          cases hat : hostNode.startedAt with
          | none => simp [hstarts, hat] at hfault
          | some x => simp [hat]
        constructor
        · refine ⟨hledger ▸ .refl _, hkept, fun hmatched => ?_⟩
          refine hmatched.mark hfresh (Studio.begun?_mark hknown hsource) fun c h => ?_
          refine ⟨.inl, ?_⟩
          rintro (hstart | ⟨rfl, rfl⟩)
          · exact hstart
          · exact hbefore
        · -- Nobody else could have had it started.
          intro hP
          have hfit := hs.fit hP
          obtain ⟨id, hid⟩ := (hfit.matched _ _).1 hbefore
          obtain rfl := hfit.owner hknown hformed hsource hid
          rw [hfresh] at hid
          cases hid

-- A source that has been started can be stopped.
theorem granted_stopSource (hs : Poised root P s) (hnode : node ∈ root.reach)
    (hsource : node.source? = some host) : Granted root P (node.stopSource host time) s := by
  obtain ⟨hknown, -⟩ := hs.stands node hnode
  refine granted_read ?_
  rw [Node.state_started]
  split
  case isFalse => exact granted_pure _
  case isTrue hmarked =>
      refine granted_host (.stop host time) rfl fun hP => ?_
      have hbegun : s.begun? node.id = some (node.context, host) := by
        rw [Studio.begun?_eq hknown hsource, if_pos hmarked]
      have hstart : s.hasStart node.context host = true :=
        ((hs.fit hP).matched _ _).2 ⟨node.id, hbegun⟩
      exact Engine.stop_started hstart time

-- An envelope moves the level of a gain.
theorem Poised.gain {info : NodeInfo} {attack : Contour} {release : Option Contour}
    (hs : Poised root P s) (hnode : .envelope info host attack release ∈ root.reach) (hP : P) :
    s.kind? info.context host = some (some .gain) := by
  obtain ⟨hknown, hformed⟩ := hs.stands _ hnode
  have hthere := Studio.node?_of_knows hknown
  have hhouses := (hs.fit hP).housed.houses _ _ hthere hformed.opened
  exact hhouses.shapes info host attack release rfl

namespace Node

section Parts

variable {nodes : List Node}

theorem granted_forM {act : Node → Act PUnit}
    (h : ∀ node ∈ nodes, ∀ t, Poised root P t → Granted root P (act node) t)
    (hs : Poised root P s) : Granted root P (nodes.forM act) s := by
  induction nodes generalizing s with
  | nil => exact granted_pure _
  | cons node rest ih =>
      have hfirst := h node List.mem_cons_self s hs
      refine granted_bind hfirst fun _ t hst => ih (fun other hother => ?_) (hs.step hst)
      exact h other (List.mem_cons_of_mem _ hother)

-- The parts of a node, each at any time.
def StopsGranted (root : Node) (P : Prop) (nodes : List Node) : Prop :=
  ∀ node ∈ nodes, ∀ time t, Poised root P t → Granted root P (node.stop time) t

theorem granted_stopAll (h : StopsGranted root P nodes) (hs : Poised root P s) :
    Granted root P (stopAll nodes time) s := by
  rw [stopAll_eq]
  exact granted_forM (fun node hnode => h node (List.mem_of_mem_filter hnode) time) hs

theorem granted_stopChain (h : StopsGranted root P nodes) (hs : Poised root P s) :
    Granted root P (stopChain nodes time) s := by
  induction nodes generalizing s with
  | nil => exact granted_pure _
  | cons node rest ih =>
      have hrest := ih (fun other hother => h other (List.mem_cons_of_mem _ hother)) hs
      rw [stopChain]
      refine granted_bind hrest fun at' t hst => ?_
      split
      case isTrue =>
          have hfirst := h node List.mem_cons_self at' t (hs.step hst)
          exact granted_bind hfirst fun _ _ _ => granted_pure _
      case isFalse => exact granted_pure _

theorem granted_stopParts (h : StopsGranted root P node.parts) (hs : Poised root P s) :
    Granted root P (node.stopParts time) s := by
  unfold stopParts
  split
  case h_1 info head tail =>
      have htail : StopsGranted root P tail := fun part hpart =>
        h part (List.mem_cons_of_mem head hpart)
      refine granted_bind (granted_stopChain htail hs) fun later t hst => ?_
      refine granted_stopAll (fun part hpart => ?_) (hs.step hst)
      obtain rfl := List.mem_singleton.1 hpart
      exact h part List.mem_cons_self
  case h_2 => exact granted_stopAll h hs

end Parts

theorem granted_stopOwn (hs : Poised root P s) (hnode : node ∈ root.reach) :
    Granted root P (node.stopOwn time) s := by
  unfold stopOwn
  split
  case h_1 => exact granted_stopSource hs hnode rfl
  case h_2 release => exact granted_schedule release fun hP => hs.gain hnode hP
  case h_3 => exact granted_pure _

theorem granted_stop (hs : Poised root P s) (hnode : node ∈ root.reach) :
    Granted root P (node.stop time) s := by
  induction node using induct generalizing s time with
  | step node ih =>
      have hparts : StopsGranted root P node.parts := fun part hpart time t ht =>
        ih part hpart ht (reach_trans (part_mem_reach hpart) hnode)
      rw [stop_eq]
      refine granted_bind (granted_checkTime hnode) fun _ t hst => granted_read ?_
      split
      case isTrue => exact granted_pure _
      case isFalse =>
          refine granted_bind (granted_stopOwn (hs.step hst) hnode) fun _ u htu => ?_
          exact granted_stopParts hparts ((hs.step hst).step htu)

theorem granted_startOwn (hs : Poised root P s) (hnode : node ∈ root.reach) :
    Granted root P (node.startOwn time) s := by
  cases node with
  | leaf info host source params modulators =>
      cases source with
      | true => exact granted_startSource hs hnode rfl
      | false => exact granted_pure _
  | envelope info host attack release =>
      -- An envelope is no source, so that its mark matches no host.
      have hmark : Granted root P (changeNode info.id fun state => { state with started := true })
          s := by
        obtain ⟨hknown, -⟩ := hs.stands _ hnode
        obtain ⟨state, hstate, hsame⟩ := Studio.state_of_knows hknown
        let marked : Studio := { s with nodes := s.nodes.modify info.id fun state =>
          { state with started := true } }
        have hledger : marked.ledger = s.ledger := s.ledger_changeNode_eq info.id fun _ => rfl
        rw [Granted, changeNode, ends_modify]
        refine ⟨hledger ▸ .refl _, .of_change info.id fun _ => rfl, Unbegun.matched ?_⟩
        refine .of_change info.id fun other hother => ?_
        obtain rfl : state = other := Option.some_inj.1 (hstate.symm.trans hother)
        simp [NodeState.begun?, hsame, source?]
      exact granted_bind hmark fun _ t hst =>
        granted_schedule attack fun hP => (hs.step hst).gain hnode hP
  | series | parallel | wrapped => exact granted_pure _

theorem granted_start (hs : Poised root P s) (hnode : node ∈ root.reach) :
    Granted root P (node.start time) s := by
  induction node using induct generalizing s with
  | step node ih =>
      rw [start_eq]
      refine granted_bind (granted_checkTime hnode) fun _ t hst => ?_
      have ht := hs.step hst
      refine granted_bind (granted_startOwn ht hnode) fun _ u htu => ?_
      have hu := ht.step htu
      have hparts : Granted root P (startAll node.parts time) u := by
        rw [startAll_eq]
        refine granted_forM (fun part hpart v hv => ?_) hu
        have hmem : part ∈ node.parts := List.mem_of_mem_filter hpart
        exact ih part hmem hv (reach_trans (part_mem_reach hmem) hnode)
      refine granted_bind hparts fun _ v huv => ?_
      unfold stopAtEnd
      split
      case h_1 => exact granted_stop (hu.step huv) hnode
      case h_2 => exact granted_pure _

end Node

end Granted

instance : Performs (Preserves Matched) :=
  .of_finer (fun _ _ => Unbegun.matched) Unbegun.of_unmoved
    (fun s rate _ => by
      refine along_openContext (Unbegun.matched ⟨fun _ => rfl, fun c host => ?_⟩)
      rw [Studio.hasStart, (s.engine_opened rate c).1, ← Studio.hasStart])
    (fun s node time hsound hnode => by
      have hs : Poised node False s := ⟨.of_sound hsound hnode, False.elim⟩
      have hstart : Granted node False (node.start time) s :=
        Node.granted_start hs node.self_mem_reach
      exact Ends.mono hstart (fun _ _ h => ⟨h.matched, trivial⟩) fun _ _ h => h.1.matched)
    fun s node _ _ => by
      have hdisconnect : Keeps Unbegun node.disconnect := by
        apply node.keeps_disconnect
        case hmark => exact fun inner _ => Unbegun.keeps_changeNode inner.id fun _ => rfl
        case hconnected => exact fun id => Unbegun.keeps_changeNode id fun _ => rfl
        case hcut => exact Unbegun.keeps_cutHost
      exact hdisconnect.mono (fun _ _ => Unbegun.matched) s

-- Starts and stops of a node where all is in place.
theorem Fit.refuses {s : Studio} {node : Node} (hs : Fit s) (hsound : s.ledger.Sound 0)
    (hnode : s.ledger.Knows node) (time : Float) :
    Ends (node.start time) s (fun _ _ => True) (fun e _ => node.Untimely e) ∧
      Ends (node.stop time) s (fun _ _ => True) fun e _ => node.Untimely e := by
  have hpoised : Poised node True s := ⟨.of_sound hsound hnode, fun _ => hs⟩
  have hstart : Granted node True (node.start time) s :=
    Node.granted_start hpoised node.self_mem_reach
  have hstop : Granted node True (node.stop time) s :=
    Node.granted_stop hpoised node.self_mem_reach
  constructor
  · exact hstart.mono (fun _ _ _ => trivial) fun _ _ h => h.2 trivial
  · exact hstop.mono (fun _ _ _ => trivial) fun _ _ h => h.2 trivial

namespace Session

variable {commands : List Command}

theorem matched_run (rate : Float) (hstarts : ∀ command ∈ commands, command.startsHost = false) :
    Matched (run rate commands).studio := by
  have hnew : Matched (.new rate) := by
    intro c host
    have hhost : (Studio.new rate).hasStart c host = false := by
      cases c <;> cases host <;> rfl
    have hnode (id : NodeId) : (Studio.new rate).begun? id = none := rfl
    simp [hhost, hnode]
  refine invariant (·.startsHost = false) rate hnew (fun s hs command hcommand act hact => ?_) hstarts
  cases hdirect : command.isDirect with
  | true => exact (Unbegun.keeps_direct hdirect hcommand act hact).mono (fun _ _ => Unbegun.matched) s
  | false => exact Command.performs hs hdirect act hact

-- As long as callers have no host start a source, a start or a stop of any node succeeds, or
-- names a node that it reaches and a time for it that is not finite. A disconnection succeeds.
theorem only_times_refused (rate : Float) (commands : List Command)
    (hstarts : ∀ command ∈ commands, command.startsHost = false) (id : NodeId) (node : Node)
    (hnode : (run rate commands).studio.node? id = some node) :
    (∀ time, (∃ t, node.start time (run rate commands).studio = .ok () t) ∨
      ∃ e t, node.start time (run rate commands).studio = .error e t ∧ node.Untimely e) ∧
    (∀ time, (∃ t, node.stop time (run rate commands).studio = .ok () t) ∨
      ∃ e t, node.stop time (run rate commands).studio = .error e t ∧ node.Untimely e) ∧
    ∃ t, node.disconnect (run rate commands).studio = .ok () t := by
  have hsound : (run rate commands).studio.ledger.Sound 0 := (lawful_run rate commands).sound
  have hknown := (Studio.offers_of_node hsound hnode).1.known
  have hfit : Fit (run rate commands).studio := ⟨housed_run rate commands, matched_run rate hstarts⟩
  have hrefuses {act : Act Unit} (h : Ends act (run rate commands).studio (fun _ _ => True)
      fun e _ => node.Untimely e) : (∃ t, act (run rate commands).studio = .ok () t) ∨
        ∃ e t, act (run rate commands).studio = .error e t ∧ node.Untimely e := by
    cases hact : act (run rate commands).studio with
    | ok _ t => exact .inl ⟨t, rfl⟩
    | error e t => exact .inr ⟨e, t, rfl, ends_of_error hact h⟩
  refine ⟨fun time => ?_, fun time => ?_, ?_⟩
  · exact hrefuses (hfit.refuses hsound hknown time).1
  · exact hrefuses (hfit.refuses hsound hknown time).2
  · obtain ⟨⟨⟩, t, ht, -⟩ := exists_of_ends (Node.settles_disconnect hsound hknown)
    exact ⟨t, ht⟩

-- A tone whose frequency follows another, in an envelope. It has been started twice, and the other
-- has been disconnected.
def restarted : List Command := [
  .make 0 (.oscillator .sine (.fixed 5) none),
  .make 0 (.oscillator .sine (.node 0) none),
  .make 0 (.percussive none none),
  .make 0 (.series 1 [2]),
  .start 3 0,
  .start 3 1,
  .disconnect 0]

theorem restarted_again : ∃ node, (run 44100 restarted).studio.node? 3 = some node ∧
    (∃ t, node.start 2 (run 44100 restarted).studio = .ok () t) ∧
    (∃ e t, node.stop (1e308 + 1e308) (run 44100 restarted).studio = .error e t ∧ node.Untimely e) ∧
    ∃ t, node.disconnect (run 44100 restarted).studio = .ok () t := by
  have hsome : ((run 44100 restarted).studio.node? 3).isSome = true := by decide +kernel
  obtain ⟨node, hnode⟩ := Option.isSome_iff_exists.1 hsome
  have hfacts : ∀ node ∈ (run 44100 restarted).studio.node? 3,
      (node.start 2).succeeds (run 44100 restarted).studio = true ∧
        (node.stop (1e308 + 1e308)).succeeds (run 44100 restarted).studio = false := by
    decide +kernel
  obtain ⟨hstarts, hstops⟩ := hfacts node hnode
  obtain ⟨-, hstop, hdisconnect⟩ :=
    only_times_refused 44100 restarted (by decide) 3 node hnode
  obtain ⟨⟨⟩, t, ht⟩ := ok_of_succeeds hstarts
  refine ⟨node, hnode, ⟨t, ht⟩, (hstop (1e308 + 1e308)).resolve_left ?_, hdisconnect⟩
  rintro ⟨u, hu⟩
  simp [Act.succeeds, hu] at hstops

end Session

end Patchbay
