import Patchbay.Proofs.Lifetime.StartReach

namespace Patchbay

open Act

def NodeState.standing (state : NodeState) : Node × Bool × Bool :=
  (state.node, state.started, state.disconnected)

def HostNode.standing (node : HostNode) : Option NodeKind × Bool × Option Float :=
  (node.kind, node.startedAt.isSome, node.stopAt)

-- The time that a host node was last given to stop.
def Studio.stopAt? (s : Studio) (c : ContextId) (h : HostId) : Option Float :=
  ((s.engine c).nodes[h]?).bind HostNode.stopAt

-- Nothing was made, started, disconnected or asked of a host.
structure Unmoved (s t : Studio) : Prop where
  nodes : ∀ id : NodeId, (t.nodes[id]?).map NodeState.standing = (s.nodes[id]?).map NodeState.standing
  contexts : t.engines.size = s.engines.size
  hosts : ∀ (c : ContextId) (h : HostId), ((t.engine c).nodes[h]?).map HostNode.standing =
    ((s.engine c).nodes[h]?).map HostNode.standing
  calls : ∀ c, (t.engine c).calls = (s.engine c).calls

namespace Unmoved

variable {s t : Studio}

instance : IsPreorder Studio Unmoved where
  refl _ := ⟨fun _ => rfl, rfl, fun _ _ => rfl, fun _ => rfl⟩
  trans _ _ _ h h' := ⟨fun id => (h'.nodes id).trans (h.nodes id), h'.contexts.trans h.contexts,
    fun c host => (h'.hosts c host).trans (h.hosts c host), fun c => (h'.calls c).trans (h.calls c)⟩

theorem stopAt? (h : Unmoved s t) (c : ContextId) (host : HostId) :
    t.stopAt? c host = s.stopAt? c host := by
  have hstanding (node : Option HostNode) : node.bind HostNode.stopAt =
      (node.map HostNode.standing).bind (·.2.2) := by
    cases node <;> rfl
  rw [Studio.stopAt?, hstanding, h.hosts, ← hstanding, ← Studio.stopAt?]

theorem of_eq (hnodes : t.nodes = s.nodes) (hengines : t.engines = s.engines) : Unmoved s t where
  nodes id := by rw [hnodes]
  contexts := by rw [hengines]
  hosts c h := by rw [Studio.engine, hengines, ← Studio.engine]
  calls c := by rw [Studio.engine, hengines, ← Studio.engine]

theorem of_change (id : NodeId) {f : NodeState → NodeState}
    (hf : ∀ state, (f state).standing = state.standing) :
    Unmoved s { s with nodes := s.nodes.modify id f } where
  nodes other := by
    rw [Array.getElem?_modify]
    split
    case isTrue => cases s.nodes[other]? <;> simp [hf]
    case isFalse => rfl
  contexts := rfl
  hosts _ _ := rfl
  calls _ := rfl

theorem of_engine (context : ContextId) {engine : Engine}
    (hhosts : ∀ h : HostId, (engine.nodes[h]?).map HostNode.standing =
      ((s.engine context).nodes[h]?).map HostNode.standing)
    (hcalls : engine.calls = (s.engine context).calls) :
    Unmoved s { s with engines := s.engines.modify context fun _ => engine } where
  nodes _ := rfl
  contexts := Array.size_modify
  hosts c h := by
    rw [s.engine_setEngine]
    split
    case isTrue hc => rw [hhosts, hc.1]
    case isFalse => rfl
  calls c := by
    rw [s.engine_setEngine]
    split
    case isTrue hc => rw [hcalls, hc.1]
    case isFalse => rfl

end Unmoved

-- Nor was any builder touched or any clock.
structure Untouched (s t : Studio) : Prop extends Unmoved s t where
  builders : t.builders = s.builders
  clocks : ∀ c, (t.engine c).now = (s.engine c).now

namespace Untouched

variable {s t : Studio}

instance : IsPreorder Studio Untouched where
  refl s := ⟨refl_of Unmoved s, rfl, fun _ => rfl⟩
  trans _ _ _ h h' := ⟨trans_of Unmoved h.toUnmoved h'.toUnmoved, h'.builders.trans h.builders,
    fun c => (h'.clocks c).trans (h.clocks c)⟩

theorem of_eq (hnodes : t.nodes = s.nodes) (hengines : t.engines = s.engines)
    (hbuilders : t.builders = s.builders) : Untouched s t where
  toUnmoved := .of_eq hnodes hengines
  builders := hbuilders
  clocks c := by rw [Studio.engine, hengines, ← Studio.engine]

theorem of_change (id : NodeId) {f : NodeState → NodeState}
    (hf : ∀ state, (f state).standing = state.standing) :
    Untouched s { s with nodes := s.nodes.modify id f } where
  toUnmoved := .of_change id hf
  builders := rfl
  clocks _ := rfl

theorem of_engine (context : ContextId) {engine : Engine}
    (hhosts : ∀ h : HostId, (engine.nodes[h]?).map HostNode.standing =
      ((s.engine context).nodes[h]?).map HostNode.standing)
    (hcalls : engine.calls = (s.engine context).calls) (hnow : engine.now = (s.engine context).now) :
    Untouched s { s with engines := s.engines.modify context fun _ => engine } where
  toUnmoved := .of_engine context hhosts hcalls
  builders := rfl
  clocks c := by
    rw [s.engine_setEngine]
    split
    case isTrue hc => rw [hnow, hc.1]
    case isFalse => rfl

end Untouched

-- A context that has just been opened looks as it did before.
theorem Studio.engine_opened (s : Studio) (rate : Float) (c : ContextId) :
    let opened : Studio := { s with engines := s.engines.push (.new rate) }
    (opened.engine c).nodes = (s.engine c).nodes ∧ (opened.engine c).calls = (s.engine c).calls ∧
      (opened.engine c).now = (s.engine c).now := by
  simp only [Studio.engine, Array.getElem?_push]
  split
  case isTrue hc => simp [hc, Engine.new]
  case isFalse => exact ⟨rfl, rfl, rfl⟩

-- A new node is neither started nor disconnected, and besides it nothing moves.
theorem Node.ends_enrolled {context : ContextId} {label : String} {duration release : Option Float}
    {make : NodeInfo → Node} (s : Studio) :
    Ends (enrol context label duration release make) s
      (fun node t => (∃ info, node = make info ∧ info.context = context ∧
          info.duration = length duration ∧ info.release = length release) ∧
        ∃ state, state.standing = (node, false, false) ∧
          Untouched { s with nodes := s.nodes.push state } t)
      fun _ _ => False := by
  have hlisten (listener : Listener) (ids : List NodeId) (s : Studio) :
      Ends (ids.forM fun id => changeNode id fun state =>
        { state with listeners := state.listeners ++ [listener] }) s
        (fun _ t => Untouched s t) fun _ _ => False := by
    induction ids generalizing s with
    | nil =>
        rw [ends_forM_nil]
        exact refl_of Untouched s
    | cons id rest ih =>
        rw [ends_forM_cons, changeNode, ends_modify]
        refine (ih _).mono (fun _ t ht => trans_of Untouched ?_ ht) fun _ _ h => h
        exact .of_change id fun _ => rfl
  unfold enrol
  simp only [ends_bind, ends_get, ends_set]
  refine (hlisten _ _ _).mono (fun _ t ht => ?_) fun _ _ h => h
  rw [ends_pure]
  exact ⟨⟨_, rfl, rfl, rfl, rfl⟩, _, rfl, ht⟩

end Patchbay
