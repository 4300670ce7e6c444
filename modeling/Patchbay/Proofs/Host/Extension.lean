import Patchbay.Proofs.Builder.Buildable
import Patchbay.Proofs.Wiring.Bracketing

namespace Patchbay

open Act

-- The log goes on with these calls, and these host nodes stand behind those that were there.
def Engine.extend (engine : Engine) (calls : List HostCall) (hosts : List HostNode) : Engine :=
  { engine with
    nodes := engine.nodes ++ hosts.toArray
    calls := engine.calls ++ calls.toArray }

def Studio.extend (s : Studio) (c : ContextId) (calls : List HostCall) (hosts : List HostNode) :
    Studio :=
  { s with engines := s.engines.modify c (·.extend calls hosts) }

namespace Engine

variable {engine : Engine} {calls more : List HostCall} {hosts others : List HostNode}

@[simp] theorem extend_nil (engine : Engine) : engine.extend [] [] = engine := by
  simp [extend]

@[simp] theorem extend_extend (engine : Engine) : (engine.extend calls hosts).extend more others =
    engine.extend (calls ++ more) (hosts ++ others) := by
  simp [extend]

@[simp] theorem size_extend (engine : Engine) :
    (engine.extend calls hosts).nodes.size = engine.nodes.size + hosts.length := by
  simp [extend]

theorem record_eq (engine : Engine) (call : HostCall) :
    engine.record call = engine.extend [call] [] := by
  simp [record, extend]

theorem create_eq (engine : Engine) (kind : NodeKind) : engine.create kind =
    (engine.nodes.size, engine.extend [.create engine.nodes.size kind.name] [.ofKind (some kind)]) := by
  simp [create, record, extend]

-- Host nodes that were there are found where they were, new ones behind them.
theorem getElem?_extend (engine : Engine) (host : Nat) :
    (engine.extend calls hosts).nodes[host]? =
      if host < engine.nodes.size then engine.nodes[host]? else hosts[host - engine.nodes.size]? := by
  simp [extend, Array.getElem?_append]

theorem getElem?_added (engine : Engine) (i : Nat) :
    (engine.extend calls hosts).nodes[engine.nodes.size + i]? = hosts[i]? := by
  rw [getElem?_extend, if_neg (Nat.not_lt.2 (Nat.le_add_right _ i)), Nat.add_sub_cancel_left]

theorem change_added (engine : Engine) (i : Nat) (f : HostNode → HostNode) :
    (engine.extend calls hosts).change (engine.nodes.size + i) f =
      engine.extend calls (hosts.modify i f) := by
  have hnodes : (engine.extend calls hosts).nodes.modify (engine.nodes.size + i) f =
      (engine.extend calls (hosts.modify i f)).nodes := by
    apply Array.ext_getElem?
    intro j
    rw [Array.getElem?_modify]
    split
    case isTrue hj =>
        subst hj
        rw [getElem?_added, getElem?_added, List.getElem?_modify_eq]
        rfl
    case isFalse hj =>
        rw [getElem?_extend, getElem?_extend]
        split
        case isTrue => rfl
        case isFalse =>
            have hne : i ≠ j - engine.nodes.size := by omega
            simp [hne]
  rw [change, hnodes]
  rfl

theorem setParam_added {i : Nat} {host : HostNode} {param : Param} (hhost : hosts[i]? = some host)
    (hhas : host.hasParam param = true) (x : Float) :
    (engine.extend calls hosts).setParam (engine.nodes.size + i) param x =
      .ok (engine.extend (calls ++ [.setParam (engine.nodes.size + i) param x])
        (hosts.modify i (·.setValue param x))) := by
  rw [setParam_eq (by rw [getElem?_added, hhost]) hhas, change_added, record_eq, extend_extend,
    List.append_nil]

theorem param?_added {i : Nat} {host : HostNode} (hhost : hosts[i]? = some host) (param : Param) :
    (engine.extend calls hosts).param? (engine.nodes.size + i) param = host.param? param := by
  rw [param?, getElem?_added, hhost]
  rfl

theorem admits_added (engine : Engine) (i : Nat) (param : Param) :
    (engine.extend calls hosts).admits (.param (engine.nodes.size + i) param) =
      (hosts[i]?).any (·.hasParam param) := by
  rw [admits, param?_eq, getElem?_added]

theorem connect_unknown {source : HostId} (h : engine.nodes.size ≤ source) (endpoint : Endpoint) :
    engine.connect source endpoint = .error (.unknownNode source) := by
  unfold connect find
  rw [Array.getElem?_eq_none h]
  rfl

theorem connect_taken {source : HostId} {endpoint : Endpoint}
    (hsource : source < engine.nodes.size) (hadmits : engine.admits endpoint = true) :
    engine.connect source endpoint = .ok (engine.extend [.connect source endpoint] []) := by
  have hsome : (engine.nodes[source]?).isSome = true := by simpa using hsource
  obtain ⟨after, hafter⟩ := connect_ok_iff.2 ⟨hsome, hadmits⟩
  rw [hafter, record_connect hafter, record_eq]

end Engine

namespace Studio

variable {s : Studio} {c : ContextId} {calls more : List HostCall} {hosts others : List HostNode}

@[simp] theorem extend_nil (s : Studio) (c : ContextId) : s.extend c [] [] = s := by
  have hsame : s.engines.modify c (·.extend [] []) = s.engines := by
    apply Array.ext_getElem?
    intro i
    simp [Array.getElem?_modify]
  rw [extend, hsame]

@[simp] theorem extend_extend (s : Studio) :
    (s.extend c calls hosts).extend c more others = s.extend c (calls ++ more) (hosts ++ others) := by
  refine congrArg (fun engines => ({ s with engines } : Studio)) ?_
  apply Array.ext_getElem?
  intro i
  simp only [extend, Array.getElem?_modify]
  split <;> simp [Function.comp_def]

@[simp] theorem contexts_extend (s : Studio) :
    (s.extend c calls hosts).engines.size = s.engines.size := Array.size_modify

theorem engines_set_extend (s : Studio) (c : ContextId) (calls : List HostCall)
    (hosts : List HostNode) : s.engines.modify c (fun _ => (s.engine c).extend calls hosts) =
      s.engines.modify c (·.extend calls hosts) := by
  apply Array.ext_getElem?
  intro i
  simp only [Array.getElem?_modify]
  split
  case isTrue h =>
      subst h
      rw [engine]
      cases s.engines[c]? <;> rfl
  case isFalse => rfl

theorem engine_extend_eq (s : Studio) (c d : ContextId) (calls : List HostCall)
    (hosts : List HostNode) : (s.extend c calls hosts).engine d =
      if c = d ∧ d < s.engines.size then (s.engine c).extend calls hosts else s.engine d := by
  rw [extend, ← engines_set_extend]
  exact s.engine_setEngine c d _

theorem engine_extend (hc : c < s.engines.size) (calls : List HostCall) (hosts : List HostNode) :
    (s.extend c calls hosts).engine c = (s.engine c).extend calls hosts :=
  (s.engine_extend_eq c c calls hosts).trans (if_pos ⟨rfl, hc⟩)

end Studio

namespace Act

variable {s : Studio} {c : ContextId} {call : Engine → Except HostFault Engine}

theorem host_extend {calls : List HostCall} {hosts : List HostNode}
    (h : call (s.engine c) = .ok ((s.engine c).extend calls hosts)) :
    Act.host c call s = .ok () (s.extend c calls hosts) := by
  have hengine : engine c s = .ok (s.engine c) s := rfl
  unfold host
  rw [run_bind hengine, h]
  exact congrArg (fun engines => EStateM.Result.ok () { s with engines })
    (s.engines_set_extend c calls hosts)

theorem host_error {fault : HostFault} (h : call (s.engine c) = .error fault) :
    Act.host c call s = .error (.host fault) s := by
  have hengine : engine c s = .ok (s.engine c) s := rfl
  unfold host
  rw [run_bind hengine, h]
  rfl

end Act

-- From one studio to the other, a host has been told these calls and has these new host nodes, and so
-- many nodes have been made. No other host has changed, and nothing has been started.
structure Extends (c : ContextId) (calls : List HostCall) (hosts : List HostNode) (made : Nat)
    (s t : Studio) : Prop where
  engines : t.engines = (s.extend c calls hosts).engines
  numbered : t.nodes.size = s.nodes.size + made
  started : ∀ id, t.started id = s.started id

namespace Extends

variable {c : ContextId} {calls more : List HostCall} {hosts others : List HostNode} {made : Nat}
variable {s t : Studio}

theorem refl (c : ContextId) (s : Studio) : Extends c [] [] 0 s s :=
  ⟨by rw [s.extend_nil], rfl, fun _ => rfl⟩

theorem contexts (h : Extends c calls hosts made s t) : t.engines.size = s.engines.size := by
  rw [h.engines, s.contexts_extend]

theorem engine_eq (h : Extends c calls hosts made s t) (d : ContextId) :
    t.engine d = (s.extend c calls hosts).engine d := by
  rw [Studio.engine, h.engines, ← Studio.engine]

theorem engine_of (h : Extends c calls hosts made s t) (hc : c < s.engines.size) :
    t.engine c = (s.engine c).extend calls hosts := by
  rw [h.engine_eq, s.engine_extend hc]

-- The host has been told more, and has more host nodes or others.
theorem set (h : Extends c calls hosts made s t) : Extends c more others made s
    { t with engines := t.engines.modify c fun _ => (s.engine c).extend more others } where
  engines := by
    rw [h.engines, Studio.extend, Studio.extend, ← Studio.engines_set_extend]
    apply Array.ext_getElem?
    intro i
    simp only [Array.getElem?_modify]
    split
    case isTrue hi =>
        subst hi
        rw [Studio.engine]
        cases s.engines[c]? <;> rfl
    case isFalse => rfl
  numbered := h.numbered
  started := h.started

theorem change (h : Extends c calls hosts made s t) (id : NodeId) {f : NodeState → NodeState}
    (hf : ∀ state, (f state).started = state.started) :
    Extends c calls hosts made s { t with nodes := t.nodes.modify id f } where
  engines := h.engines
  numbered := Array.size_modify.trans h.numbered
  started other := by
    rw [← h.started other, Studio.started, Studio.started, Array.getElem?_modify]
    split
    case isTrue => cases t.nodes[other]? <;> simp [hf]
    case isFalse => rfl

variable {fail : Error → Studio → Prop}

theorem ends_host (h : Extends c calls hosts made s t) (hc : c < s.engines.size)
    {call : Engine → Except HostFault Engine}
    (hcall : call ((s.engine c).extend calls hosts) = .ok ((s.engine c).extend more others)) :
    Ends (Act.host c call) t (fun _ u => Extends c more others made s u) fail := by
  rw [← h.engine_of hc] at hcall
  refine Act.ends_host (fun after hafter => ?_) fun fault hfault => ?_
  · obtain rfl : (s.engine c).extend more others = after := Except.ok.inj (hcall.symm.trans hafter)
    exact h.set
  · rw [hcall] at hfault
    cases hfault

-- It takes the next number.
theorem ends_createHost (h : Extends c calls hosts made s t) (hc : c < s.engines.size)
    (kind : NodeKind) : Ends (createHost c kind) t
      (fun host u => host = (s.engine c).nodes.size + hosts.length ∧
        Extends c (calls ++ [.create host kind.name]) (hosts ++ [.ofKind (some kind)]) made s u)
      fail := by
  unfold createHost Act.engine setEngine
  simp only [ends_bind, ends_get, ends_pure, ends_modify]
  rw [h.engine_of hc, Engine.create_eq, Engine.extend_extend, Engine.size_extend]
  exact ⟨rfl, h.set⟩

theorem ends_setParam (h : Extends c calls hosts made s t) (hc : c < s.engines.size) {i : Nat}
    {host : HostNode} {param : Param} (hhost : hosts[i]? = some host)
    (hhas : host.hasParam param = true) (x : Float) :
    Ends (Act.host c (·.setParam ((s.engine c).nodes.size + i) param x)) t
      (fun _ u => Extends c (calls ++ [.setParam ((s.engine c).nodes.size + i) param x])
        (hosts.modify i (·.setValue param x)) made s u) fail :=
  h.ends_host hc (Engine.setParam_added hhost hhas x)

theorem ends_connectHost (h : Extends c calls hosts made s t) (hc : c < s.engines.size)
    {source : HostId} {endpoint : Endpoint}
    (hsource : source < (s.engine c).nodes.size + hosts.length)
    (hadmits : ((s.engine c).extend calls hosts).admits endpoint = true) :
    Ends (Act.host c (·.connect source endpoint)) t
      (fun _ u => Extends c (calls ++ [.connect source endpoint]) hosts made s u) fail := by
  refine h.ends_host hc ?_
  rw [Engine.connect_taken (by rwa [Engine.size_extend]) hadmits, Engine.extend_extend,
    List.append_nil]

theorem ends_connectEndpoint (h : Extends c calls hosts made s t) (hc : c < s.engines.size)
    {node : Node} (hnode : node.context = c) {endpoint : Endpoint}
    (hsource : node.outputHost < (s.engine c).nodes.size + hosts.length)
    (hadmits : ((s.engine c).extend calls hosts).admits endpoint = true) :
    Ends (node.connectEndpoint endpoint) t
      (fun _ u => Extends c (calls ++ [.connect node.outputHost endpoint]) hosts made s u) fail := by
  unfold Node.connectEndpoint
  rw [hnode]
  refine (h.ends_connectHost hc hsource hadmits).bind fun _ u hu => ?_
  rw [changeNode, ends_modify]
  exact hu.change node.id fun _ => rfl

-- So does a node.
theorem ends_enrol (h : Extends c calls hosts made s t) {label : String}
    {duration release : Option Float} {make : NodeInfo → Node} :
    Ends (Node.enrol c label duration release make) t
      (fun node u => node = make ⟨s.nodes.size + made, c, label, Node.length duration,
          Node.length release⟩ ∧ Extends c calls hosts (made + 1) s u) fail := by
  refine (Node.ends_numbered t).mono ?_ fun _ _ h => h.elim
  rintro node u ⟨rfl, hengines, hsize, -, hstarted⟩
  refine ⟨by rw [h.numbered], hengines.trans h.engines, ?_, fun id => ?_⟩
  · rw [hsize, h.numbered, Nat.add_assoc]
  · rw [hstarted, h.started]

theorem ends_watch (h : Extends c calls hosts made s t) (hc : c < s.engines.size) (i : Nat)
    (watcher : Watcher) : Ends (do
        let engine ← Act.engine c
        setEngine c (engine.watch ((s.engine c).nodes.size + i) watcher)) t
      (fun _ u => Extends c calls (hosts.modify i fun host =>
        { host with watchers := host.watchers ++ [watcher] }) made s u) fail := by
  unfold Act.engine setEngine
  simp only [ends_bind, ends_get, ends_pure, ends_modify]
  rw [h.engine_of hc, Engine.watch, Engine.change_added]
  exact h.set

end Extends

end Patchbay
