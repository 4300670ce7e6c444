import Patchbay.Proofs.Disconnection.Cascade

namespace Patchbay

open Act

-- The host node of a source that has been started.
def NodeState.begun? (state : NodeState) : Option (ContextId × HostId) :=
  if state.started then state.node.source?.map (state.node.context, ·) else none

def Studio.begun? (s : Studio) (id : NodeId) : Option (ContextId × HostId) :=
  (s.nodes[id]?).bind NodeState.begun?

-- The host node has a time to start.
def Studio.hasStart (s : Studio) (c : ContextId) (host : HostId) : Bool :=
  ((s.engine c).nodes[host]?).any (·.startedAt.isSome)

-- A host has started what nodes have been started for.
def Matched (s : Studio) : Prop :=
  ∀ c host, s.hasStart c host = true ↔ ∃ id, s.begun? id = some (c, host)

structure Unbegun (s t : Studio) : Prop where
  nodes : ∀ id, t.begun? id = s.begun? id
  hosts : ∀ c host, t.hasStart c host = s.hasStart c host

namespace Unbegun

variable {s t : Studio}

instance : IsPreorder Studio Unbegun where
  refl _ := ⟨fun _ => rfl, fun _ _ => rfl⟩
  trans _ _ _ h h' := ⟨fun id => (h'.nodes id).trans (h.nodes id),
    fun c host => (h'.hosts c host).trans (h.hosts c host)⟩

theorem matched (h : Unbegun s t) : Preserves Matched s t := by
  intro hs c host
  rw [h.hosts, hs c host]
  simp only [h.nodes]

theorem of_unmoved (s t : Studio) (h : Unmoved s t) : Unbegun s t where
  nodes id := by
    have hbegun (state : Option NodeState) : state.bind NodeState.begun? =
        (state.map NodeState.standing).bind fun standing =>
          if standing.2.1 then standing.1.source?.map (standing.1.context, ·) else none := by
      cases state <;> rfl
    rw [Studio.begun?, hbegun, h.nodes, ← hbegun, ← Studio.begun?]
  hosts c host := by
    have hstart (node : Option HostNode) : node.any (·.startedAt.isSome) =
        (node.map HostNode.standing).any (·.2.1) := by
      cases node <;> rfl
    rw [Studio.hasStart, hstart, h.hosts, ← hstart, ← Studio.hasStart]

theorem of_push {state : NodeState} (h : state.started = false) :
    Unbegun s { s with nodes := s.nodes.push state } where
  nodes id := by
    have hfresh : state.begun? = none := by simp [NodeState.begun?, h]
    simp only [Studio.begun?, Array.getElem?_push]
    split
    case isTrue hid => simp [hid, hfresh]
    case isFalse => rfl
  hosts _ _ := rfl

theorem of_change (id : NodeId) {f : NodeState → NodeState}
    (hf : ∀ state, s.nodes[id]? = some state → (f state).begun? = state.begun?) :
    Unbegun s { s with nodes := s.nodes.modify id f } where
  nodes other := by
    simp only [Studio.begun?, Array.getElem?_modify]
    split
    case isTrue heq =>
        subst heq
        cases hstate : s.nodes[id]? with
        | none => rfl
        | some state => exact hf state hstate
    case isFalse => rfl
  hosts _ _ := rfl

theorem of_engine (context : ContextId) {engine : Engine}
    (h : ∀ host : HostId, (engine.nodes[host]?).any (·.startedAt.isSome) =
      ((s.engine context).nodes[host]?).any (·.startedAt.isSome)) :
    Unbegun s { s with engines := s.engines.modify context fun _ => engine } where
  nodes _ := rfl
  hosts c host := by
    rw [Studio.hasStart, s.engine_setEngine]
    split
    case isTrue hc => rw [h, hc.1, ← Studio.hasStart]
    case isFalse => rfl

theorem of_touch (context : ContextId) {engine : Engine} (host : HostId) {f : HostNode → HostNode}
    (hnodes : engine.nodes = (s.engine context).nodes.modify host f)
    (hf : ∀ node, (f node).startedAt = node.startedAt) :
    Unbegun s { s with engines := s.engines.modify context fun _ => engine } := by
  refine of_engine context fun other => ?_
  rw [hnodes, Array.getElem?_modify]
  split
  case isTrue => cases (s.engine context).nodes[other]? <;> simp [hf]
  case isFalse => rfl

end Unbegun

-- Whatever is asked of a host but a start.
def Request.isStart : Request → Bool
  | .start _ _ => true
  | _ => false

theorem Request.startedAt_touch {request : Request} (h : request.isStart = false) (node : HostNode) :
    (request.touch node).startedAt = node.startedAt := by
  cases request with
  | start => cases h
  | connect | stop | setParam | setBuffer | schedule => rfl

namespace Unbegun

variable {s t : Studio}

theorem of_request {context : ContextId} {request : Request} {engine : Engine}
    (hstart : request.isStart = false) (h : request.send (s.engine context) = .ok engine) :
    Unbegun s { s with engines := s.engines.modify context fun _ => engine } :=
  of_touch context request.host (Request.nodes_send h).2 (request.startedAt_touch hstart)

theorem keeps_request (context : ContextId) (request : Request) (hstart : request.isStart = false) :
    Keeps Unbegun (Act.host context request.send) :=
  fun _ => along_host fun _ h => ⟨of_request hstart h, trivial⟩

theorem keeps_changeNode (id : NodeId) {f : NodeState → NodeState}
    (hf : ∀ state, (f state).begun? = state.begun?) : Keeps Unbegun (changeNode id f) :=
  keeps_modify fun _ => of_change id fun state _ => hf state

instance : Stops Unbegun where
  schedule context host param event :=
    keeps_request context (.schedule host param event) rfl
  stop context host time := keeps_request context (.stop host time) rfl

instance : Composes Unbegun where
  connect context source target := keeps_request context (.connect source target) rfl
  setParam context host param x := keeps_request context (.setParam host param x) rfl
  setBuffer context host := keeps_request context (.setBuffer host) rfl
  connected id _ := keeps_changeNode id fun _ => rfl
  created context kind s := by
    refine along_read (along_bind (along_modify (of_engine context fun host => ?_))
      fun _ _ _ _ => along_pure trivial)
    simp only [Engine.record, Array.getElem?_push]
    split
    case isTrue heq => simp [heq, HostNode.ofKind]
    case isFalse => rfl
  enrolled context label duration release make _ s := by
    refine Ends.mono (Node.ends_enrolled s) (fun node t ht => ⟨?_, trivial⟩) fun _ _ h => h.elim
    obtain ⟨-, state, hstanding, huntouched⟩ := ht
    have hfresh : state.started = false := congrArg (·.2.1) hstanding
    exact trans_of Unbegun (of_push hfresh) (of_unmoved _ _ huntouched.toUnmoved)
  watched context host watcher := fun _ => along_read (along_modify (of_touch context host
    (f := fun node => { node with watchers := node.watchers ++ [watcher] }) rfl fun _ => rfl))
  warned _ := keeps_aside of_unmoved (fun _ => rfl) fun _ => rfl
  read := keeps_readAside of_unmoved
  opened := keeps_openBuilder of_unmoved
  memoized _ _ _ := keeps_aside of_unmoved (fun _ => rfl) fun _ => rfl

theorem keeps_cutHost (context : ContextId) (host : HostId) :
    Keeps Unbegun (Act.host context (·.disconnect host)) := by
  refine fun s => along_host fun engine h => ⟨?_, trivial⟩
  obtain ⟨node, -, h⟩ := ok_of_bind h
  cases h
  exact of_touch (f := fun node => { node with disconnected := true }) context host rfl fun _ => rfl

end Unbegun

-- A caller has a host start a source itself.
def Command.startsHost : Command → Bool
  | .request _ call => call.isStart
  | _ => false

theorem Unbegun.keeps_direct {s : Studio} {command : Command} (hdirect : command.isDirect = true)
    (hstarts : command.startsHost = false) :
    ∀ act, command.act? s = some act → Keeps Unbegun act := by
  cases command with
  | create context kind =>
      exact forall_given fun _ _ => forall_some (keeps_map _ (Creates.created context kind))
  | request context request => exact forall_some (keeps_request context request hstarts)
  | silence context host => exact forall_given fun _ _ => forall_some (keeps_cutHost context host)
  | watch context host tag => exact forall_some (Creates.watched context host (.tag tag))
  | plug context host param value =>
      exact forall_given fun drive _ =>
        forall_some (keeps_map _ (Drive.keeps_plug context host param drive))
  | schedule contour context host param time =>
      exact forall_some (contour.keeps_schedule context host param time)
  | clearCalls context =>
      exact forall_some fun _ => along_read (along_modify (of_engine context fun _ => rfl))
  | _ => cases hdirect

end Patchbay
