import Patchbay.Proofs.Ledger.Basic

namespace Patchbay

-- The requests to a host that no disconnection is among.
inductive Request where
  | connect (source : HostId) (target : Endpoint)
  | start (host : HostId) (time : Float)
  | stop (host : HostId) (time : Float)
  | setParam (host : HostId) (param : Param) (x : Float)
  | setBuffer (host : HostId)
  | schedule (host : HostId) (param : Param) (event : Automation)

def Request.send (engine : Engine) : Request → Except HostFault Engine
  | .connect source target => engine.connect source target
  | .start host time => engine.start host time
  | .stop host time => engine.stop host time
  | .setParam host param x => engine.setParam host param x
  | .setBuffer host => engine.setBuffer host
  | .schedule host param event => engine.schedule host param event

open Act

-- Holds across whatever shapes parameters.
class Schedules (R : Studio → Studio → Prop) : Prop extends IsPreorder Studio R where
  schedule : ∀ context host param event, Keeps R (Act.host context (·.schedule host param event))

-- Holds across whatever stops nodes.
class Stops (R : Studio → Studio → Prop) : Prop extends Schedules R where
  stop : ∀ context host time, Keeps R (Act.host context (·.stop host time))

-- Holds across whatever stops nodes and voices.
class Silences (R : Studio → Studio → Prop) : Prop extends Stops R where
  stopped : ∀ inst voice, Keeps R (Act.changeInstrument inst (·.markStopped voice))

-- Holds across whatever wires nodes.
class Connects (R : Studio → Studio → Prop) : Prop extends IsPreorder Studio R where
  connect : ∀ context source target, Keeps R (Act.host context (·.connect source target))
  setParam : ∀ context host param x, Keeps R (Act.host context (·.setParam host param x))
  setBuffer : ∀ context host, Keeps R (Act.host context (·.setBuffer host))
  connected : ∀ id connected, Keeps R (Act.changeNode id fun state => { state with connected })

theorem Connects.of_finer {Q R : Studio → Studio → Prop} [Connects Q] [IsPreorder Studio R]
    (h : ∀ s t, Q s t → R s t) : Connects R where
  connect context source target := (Connects.connect context source target).mono h
  setParam context host param x := (Connects.setParam context host param x).mono h
  setBuffer context host := (Connects.setBuffer context host).mono h
  connected id connected := (Connects.connected id connected).mono h

-- Holds across whatever starts, stops and wires nodes.
class Wires (R : Studio → Studio → Prop) : Prop extends IsPreorder Studio R where
  request : ∀ context (request : Request), Keeps R (Act.host context request.send)
  started : ∀ id, Keeps R (Act.changeNode id fun state => { state with started := true })
  connected : ∀ id connected, Keeps R (Act.changeNode id fun state => { state with connected })

-- Holds across whatever plays and wires nodes.
class Plays (R : Studio → Studio → Prop) : Prop extends IsPreorder Studio R where
  request : ∀ context (request : Request), Keeps R (Act.host context request.send)
  started : ∀ id, Keeps R (Act.changeNode id fun state => { state with started := true })
  connected : ∀ id connected, Keeps R (Act.changeNode id fun state => { state with connected })
  stopped : ∀ inst voice, Keeps R (Act.changeInstrument inst (·.markStopped voice))

instance {R : Studio → Studio → Prop} [Wires R] : Stops R where
  stop context host time := Wires.request context (.stop host time)
  schedule context host param event := Wires.request context (.schedule host param event)

instance {R : Studio → Studio → Prop} [Wires R] : Connects R where
  connect context source target := Wires.request context (.connect source target)
  setParam context host param x := Wires.request context (.setParam host param x)
  setBuffer context host := Wires.request context (.setBuffer host)
  connected := Wires.connected

instance {R : Studio → Studio → Prop} [Plays R] : Wires R where
  request := Plays.request
  started := Plays.started
  connected := Plays.connected

instance {R : Studio → Studio → Prop} [Plays R] : Silences R where
  stopped := Plays.stopped

variable {R : Studio → Studio → Prop}

section Schedules

variable [Schedules R]

theorem Contour.keeps_scheduleStages (context : ContextId) (host : HostId) (param : Param) :
    ∀ (stages : List Stage) (time : Float),
      Keeps R (scheduleStages context host param time stages)
  | [], _ => keeps_pure _
  | _ :: rest, _ => keeps_bind (Schedules.schedule context host param _)
      fun _ => keeps_scheduleStages context host param rest _

theorem Contour.keeps_schedule (contour : Contour) (context : ContextId) (host : HostId)
    (param : Param) (time : Float) : Keeps R (contour.schedule context host param time) :=
  keeps_bind (keeps_now context) fun _ => keeps_scheduleStages _ _ _ _ _

end Schedules

section Stops

variable [Stops R]

namespace Node

theorem keeps_checkTime (node : Node) (time : Float) : Keeps R (node.checkTime time) := by
  unfold checkTime
  exact keeps_ite (keeps_throw _) (keeps_pure _)

theorem keeps_stopSource (node : Node) (host : HostId) (time : Float) :
    Keeps R (node.stopSource host time) := by
  refine keeps_bind keeps_get fun studio => ?_
  exact keeps_ite (Stops.stop _ host time) (keeps_pure _)

mutual
theorem keeps_stop : ∀ (node : Node) (time : Float), Keeps R (node.stop time)
  | .leaf info host source params modulators, time => by
      rw [stop]
      refine keeps_bind (keeps_checkTime _ _) fun _ => keeps_bind keeps_get fun _ => ?_
      refine keeps_ite (keeps_pure _) (keeps_ite ?_ (keeps_stopAll modulators time))
      exact keeps_bind (keeps_stopSource _ _ _) fun _ => keeps_stopAll modulators time
  | .envelope info host attack none, time => by
      rw [stop]
      refine keeps_bind (keeps_checkTime _ _) fun _ => keeps_bind keeps_get fun _ => ?_
      exact keeps_ite (keeps_pure _) (keeps_pure _)
  | .envelope info host attack (some release), time => by
      rw [stop]
      refine keeps_bind (keeps_checkTime _ _) fun _ => keeps_bind keeps_get fun _ => ?_
      exact keeps_ite (keeps_pure _) (Contour.keeps_schedule _ _ _ _ _)
  | .series info head tail, time => by
      rw [stop]
      refine keeps_bind (keeps_checkTime _ _) fun _ => keeps_bind keeps_get fun _ => ?_
      refine keeps_ite (keeps_pure _) (keeps_bind (keeps_stopChain tail time) fun at' => ?_)
      exact keeps_ite (keeps_stop head at') (keeps_pure _)
  | .parallel info input output branches, time => by
      rw [stop]
      refine keeps_bind (keeps_checkTime _ _) fun _ => keeps_bind keeps_get fun _ => ?_
      exact keeps_ite (keeps_pure _) (keeps_stopAll branches time)
  | .wrapped info inner others, time => by
      rw [stop]
      refine keeps_bind (keeps_checkTime _ _) fun _ => keeps_bind keeps_get fun _ => ?_
      refine keeps_ite (keeps_pure _) (keeps_ite ?_ (keeps_stopAll others time))
      exact keeps_bind (keeps_stop inner time) fun _ => keeps_stopAll others time

theorem keeps_stopAll : ∀ (nodes : List Node) (time : Float), Keeps R (stopAll nodes time)
  | [], _ => keeps_pure _
  | node :: rest, time => by
      rw [stopAll]
      refine keeps_ite ?_ (keeps_stopAll rest time)
      exact keeps_bind (keeps_stop node time) fun _ => keeps_stopAll rest time

theorem keeps_stopChain : ∀ (nodes : List Node) (time : Float), Keeps R (stopChain nodes time)
  | [], _ => keeps_pure _
  | node :: rest, time => by
      rw [stopChain]
      refine keeps_bind (keeps_stopChain rest time) fun at' => ?_
      refine keeps_ite ?_ (keeps_pure _)
      exact keeps_bind (keeps_stop node at') fun _ => keeps_pure _
end

theorem keeps_stopAtEnd (node : Node) (time : Float) : Keeps R (node.stopAtEnd time) := by
  unfold stopAtEnd
  split
  · exact keeps_stop node _
  · exact keeps_pure _

end Node

end Stops

section Wires

variable [Wires R]

namespace Node

theorem keeps_startSource (node : Node) (host : HostId) (time : Float) :
    Keeps R (node.startSource host time) := by
  refine keeps_bind keeps_get fun studio => keeps_ite (keeps_pure _) ?_
  exact keeps_bind (Wires.started _) fun _ => Wires.request _ (.start host time)

mutual
theorem keeps_start : ∀ (node : Node) (time : Float), Keeps R (node.start time)
  | .leaf info host source params modulators, time => by
      rw [start]
      refine keeps_bind (keeps_checkTime _ _) fun _ => ?_
      have hrest : Keeps R (do
          startAll modulators time
          (leaf info host source params modulators).stopAtEnd time) :=
        keeps_bind (keeps_startAll modulators time) fun _ => keeps_stopAtEnd _ time
      refine keeps_ite ?_ hrest
      exact keeps_bind (keeps_startSource _ _ _) fun _ => hrest
  | .envelope info host attack release, time => by
      rw [start]
      refine keeps_bind (keeps_checkTime _ _) fun _ => keeps_bind (Wires.started _) fun _ => ?_
      exact keeps_bind (Contour.keeps_schedule _ _ _ _ _) fun _ => keeps_stopAtEnd _ time
  | .series info head tail, time => by
      rw [start]
      refine keeps_bind (keeps_checkTime _ _) fun _ => ?_
      have hrest : Keeps R (do
          startAll tail time
          (series info head tail).stopAtEnd time) :=
        keeps_bind (keeps_startAll tail time) fun _ => keeps_stopAtEnd _ time
      refine keeps_ite ?_ hrest
      exact keeps_bind (keeps_start head time) fun _ => hrest
  | .parallel info input output branches, time => by
      rw [start]
      refine keeps_bind (keeps_checkTime _ _) fun _ => ?_
      exact keeps_bind (keeps_startAll branches time) fun _ => keeps_stopAtEnd _ time
  | .wrapped info inner others, time => by
      rw [start]
      refine keeps_bind (keeps_checkTime _ _) fun _ => ?_
      have hrest : Keeps R (do
          startAll others time
          (wrapped info inner others).stopAtEnd time) :=
        keeps_bind (keeps_startAll others time) fun _ => keeps_stopAtEnd _ time
      refine keeps_ite ?_ hrest
      exact keeps_bind (keeps_start inner time) fun _ => hrest

theorem keeps_startAll : ∀ (nodes : List Node) (time : Float), Keeps R (startAll nodes time)
  | [], _ => keeps_pure _
  | node :: rest, time => by
      rw [startAll]
      refine keeps_ite ?_ (keeps_startAll rest time)
      exact keeps_bind (keeps_start node time) fun _ => keeps_startAll rest time
end

end Node

end Wires

namespace Node

theorem keeps_findParam [IsPreorder Studio R] (node : Node) (param : Param) :
    Keeps R (node.findParam param) :=
  keeps_ofExcept _ _

theorem keeps_checkContext [IsPreorder Studio R] (node other : Node) :
    Keeps R (node.checkContext other) := by
  unfold checkContext
  exact keeps_ite (keeps_throw _) (keeps_pure _)

-- Whatever the target, a connection is to an endpoint.
theorem keeps_connect_of [IsPreorder Studio R] {node : Node}
    (h : ∀ endpoint, Keeps R (node.connectEndpoint endpoint)) (target : Target) :
    Keeps R (node.connect target) := by
  cases target with
  | output => exact h _
  | node other => exact keeps_bind (keeps_checkContext _ _) fun _ => h _
  | param other param =>
      exact keeps_bind (keeps_checkContext _ _) fun _ => keeps_bind (keeps_findParam _ _) fun _ => h _

end Node

section Connects

variable [Connects R]

namespace Node

theorem keeps_connectEndpoint (node : Node) (endpoint : Endpoint) :
    Keeps R (node.connectEndpoint endpoint) :=
  keeps_bind (Connects.connect _ _ endpoint) fun _ => Connects.connected _ true

theorem keeps_connect (node : Node) (target : Target) : Keeps R (node.connect target) :=
  keeps_connect_of (keeps_connectEndpoint node) target

-- What is put around a node counts as connected if that does.
theorem keeps_inheritConnected (inner node : Node) : Keeps R (do
    let connected := (inner.state (← get)).connected
    Act.changeNode node.id fun state => { state with connected }
    return node) :=
  keeps_bind keeps_get fun _ => keeps_bind (Connects.connected _ _) fun _ => keeps_pure node

theorem keeps_setBuffer : ∀ node : Node, Keeps R node.setBuffer
  | .leaf _ host _ _ _ => Connects.setBuffer _ host
  | .wrapped _ inner _ => keeps_setBuffer inner
  | .envelope _ _ _ _ | .series _ _ _ | .parallel _ _ _ _ => keeps_throw _

end Node

theorem Drive.keeps_plug (context : ContextId) (host : HostId) (param : Param) :
    ∀ drive : Option Drive, Keeps R (Drive.plug context host param drive)
  | none => keeps_pure _
  | some (.fixed x) => keeps_bind (Connects.setParam _ host param x) fun _ => keeps_pure _
  | some (.source node) =>
    keeps_bind (Connects.setParam _ host param 0) fun _ =>
      keeps_bind (Node.keeps_connectEndpoint node _) fun _ => keeps_pure _

end Connects

theorem Motion.keeps_run [Schedules R] (motion : Motion) (time : Float) :
    Keeps R (motion.run time) :=
  Contour.keeps_schedule _ _ _ _ _

section Silences

variable [Silences R]

namespace Instrument

variable (inst : InstrumentId)

theorem keeps_stopEach {timeFor : Node → Act Float} (htime : ∀ node, Keeps R (timeFor node)) :
    ∀ voices : List Voice, Keeps R (stopEach inst timeFor voices)
  | [] => keeps_pure _
  | voice :: rest => by
      refine keeps_bind (htime _) fun time => keeps_bind (Node.keeps_stop _ _) fun _ => ?_
      exact keeps_bind (Silences.stopped inst _) fun _ => keeps_stopEach htime rest

theorem keeps_stop (ids : Option (List VoiceId)) (time delay : Option Float) :
    Keeps R (stop inst ids time delay) :=
  keeps_bind (keeps_instrument inst) fun _ =>
    keeps_stopEach inst (fun _ => keeps_bind (keeps_now _) fun _ => keeps_pure _) _

theorem keeps_steal (time : Float) : Keeps R (steal inst time) :=
  keeps_bind (keeps_instrument inst) fun _ => keeps_stopEach inst (fun _ => keeps_pure _) _

end Instrument

end Silences

namespace Request

def host : Request → HostId
  | .connect host _ | .start host _ | .stop host _ | .setParam host _ _ | .setBuffer host
  | .schedule host _ _ => host

-- What it does to the host node that it goes to.
def touch : Request → HostNode → HostNode
  | .start _ time, node => { node with startedAt := some time }
  | .stop _ time, node => { node with stopAt := some time }
  | .setParam _ param x, node => node.setValue param x
  | .setBuffer _, node => { node with hasBuffer := true }
  | .connect _ _, node | .schedule _ _ _, node => node

-- What of it the ledger shows.
def mark : Request → HostFate → HostFate
  | .start _ _, fate => { fate with starts := true }
  | .stop _ _, fate => { fate with stops := true }
  | .connect _ _, fate | .setParam _ _ _, fate | .setBuffer _, fate | .schedule _ _ _, fate => fate

theorem fate_touch (request : Request) (node : HostNode) :
    (request.touch node).fate = request.mark node.fate := by
  cases request <;> rfl

end Request

theorem Engine.find_eq_ok {engine : Engine} {id : HostId} {node : HostNode} :
    engine.find id = .ok node ↔ engine.nodes[id]? = some node := by
  unfold find
  cases engine.nodes[id]? <;> simp

theorem ok_of_bind {ε α β : Type} {x : Except ε α} {f : α → Except ε β} {b : β}
    (h : x >>= f = .ok b) : ∃ a, x = .ok a ∧ f a = .ok b := by
  cases x with
  | ok a => exact ⟨a, rfl, h⟩
  | error e => cases h

-- What passes a check passes it without a change.
theorem ok_of_check {ε β : Type} {p : Prop} [Decidable p] {e : ε} {f : Unit → Except ε β} {b : β}
    (h : (if p then throw e >>= f else f ()) = .ok b) : ¬p ∧ f () = .ok b := by
  split at h
  case isTrue => cases h
  case isFalse hp => exact ⟨hp, h⟩

def Request.call : Request → HostCall
  | .connect source target => .connect source target
  | .start host time => .start host time
  | .stop host time => .stop host time
  | .setParam host param x => .setParam host param x
  | .setBuffer host => .setBuffer host
  | .schedule host param event => .schedule host param event

-- A request that the host accepts changes the one node that it goes to, and is logged.
theorem Request.send_eq {engine after : Engine} {request : Request}
    (h : request.send engine = .ok after) :
    (∃ node, engine.nodes[request.host]? = some node) ∧
      after = { engine with
        nodes := engine.nodes.modify request.host request.touch
        calls := engine.calls.push request.call } := by
  have hsame (id : HostId) (call : HostCall) : engine.record call = { engine with
      nodes := engine.nodes.modify id fun node => node
      calls := engine.calls.push call } := by
    refine congrArg (fun nodes => { engine with nodes, calls := engine.calls.push call }) ?_
    apply Array.ext_getElem?
    intro i
    simp [Array.getElem?_modify]
  cases request with
  | connect source target =>
      obtain ⟨node, hnode, h⟩ := ok_of_bind h
      refine ⟨⟨node, Engine.find_eq_ok.1 hnode⟩, ?_⟩
      cases target with
      | node id =>
          obtain ⟨target, -, h⟩ := ok_of_bind h
          obtain ⟨-, h⟩ := ok_of_check h
          cases h
          exact hsame source _
      | param id param =>
          obtain ⟨target, -, h⟩ := ok_of_bind h
          obtain ⟨-, h⟩ := ok_of_check h
          cases h
          exact hsame source _
  | start id time =>
      obtain ⟨node, hnode, h⟩ := ok_of_bind h
      obtain ⟨-, h⟩ := ok_of_check h
      obtain ⟨-, h⟩ := ok_of_check h
      cases h
      exact ⟨⟨node, Engine.find_eq_ok.1 hnode⟩, rfl⟩
  | stop id time =>
      obtain ⟨node, hnode, h⟩ := ok_of_bind h
      obtain ⟨-, h⟩ := ok_of_check h
      cases h
      exact ⟨⟨node, Engine.find_eq_ok.1 hnode⟩, rfl⟩
  | setParam id param x =>
      obtain ⟨node, hnode, h⟩ := ok_of_bind h
      obtain ⟨-, h⟩ := ok_of_check h
      cases h
      exact ⟨⟨node, Engine.find_eq_ok.1 hnode⟩, rfl⟩
  | setBuffer id =>
      obtain ⟨node, hnode, h⟩ := ok_of_bind h
      obtain ⟨-, h⟩ := ok_of_check h
      cases h
      exact ⟨⟨node, Engine.find_eq_ok.1 hnode⟩, rfl⟩
  | schedule id param event =>
      obtain ⟨node, hnode, h⟩ := ok_of_bind h
      obtain ⟨-, h⟩ := ok_of_check h
      cases h
      exact ⟨⟨node, Engine.find_eq_ok.1 hnode⟩, hsame id _⟩

theorem Request.nodes_send {engine after : Engine} {request : Request}
    (h : request.send engine = .ok after) :
    (∃ node, engine.nodes[request.host]? = some node) ∧
      after.nodes = engine.nodes.modify request.host request.touch := by
  obtain ⟨hnode, rfl⟩ := send_eq h
  exact ⟨hnode, rfl⟩

theorem Request.calls_send {engine after : Engine} {request : Request}
    (h : request.send engine = .ok after) : after.calls = engine.calls.push request.call := by
  rw [(send_eq h).2]

theorem Request.now_send {engine after : Engine} {request : Request}
    (h : request.send engine = .ok after) : after.now = engine.now := by
  rw [(send_eq h).2]

theorem Studio.ledger_request (s : Studio) {context : ContextId} {request : Request}
    {engine : Engine} (h : request.send (s.engine context) = .ok engine) :
    ({ s with engines := s.engines.modify context fun _ => engine } : Studio).ledger =
      s.ledger.setHost context request.host request.mark :=
  s.ledger_changeHost (Request.nodes_send h).2 request.fate_touch

theorem Instrument.roster_markStopped (inst : Instrument) (id : VoiceId) :
    (inst.markStopped id).roster = inst.roster := by
  have hsame (voice : Voice) :
      ((if voice.id = id then { voice with stopped := true } else voice).node,
        (if voice.id = id then { voice with stopped := true } else voice).id) =
        (voice.node, voice.id) := by
    split <;> rfl
  simp only [roster, announced, markStopped, List.map_map, Function.comp_def, hsame]

-- All that the ledger shows of playing and wiring is that hosts get times to start and to stop.
theorem plays_of_ledger {R : Studio → Studio → Prop} [IsPreorder Studio R]
    (hsame : ∀ s t : Studio, t.ledger = s.ledger → R s t)
    (hrequest : ∀ (s t : Studio) context (request : Request),
      t.ledger = s.ledger.setHost context request.host request.mark → R s t) : Plays R where
  request context request s := along_host fun _ h =>
    ⟨hrequest _ _ context request (s.ledger_request h), trivial⟩
  started id := keeps_modify fun s => hsame _ _ (s.ledger_changeNode_eq id fun _ => rfl)
  connected id _ := keeps_modify fun s => hsame _ _ (s.ledger_changeNode_eq id fun _ => rfl)
  stopped inst voice := keeps_modify fun s => hsame _ _ (s.ledger_changeInstrument_eq inst
    fun i => i.roster_markStopped voice)

end Patchbay
