import Patchbay.Instrument.Basic
import Patchbay.Warning

namespace Patchbay

def version : String := "0.1.0"

abbrev BuilderId := Nat

-- What a caller does on being told of the end of a node, where nodes are given as `α`.
inductive Reply (α : Type) where
  | done
  -- Has a node stopped at once.
  | stop (node : α) (next : Reply α)
  -- Asks to be told of the end of a node in turn.
  | ask (node : α) (tag : String) (reply next : Reply α)

-- How many nodes it has stopped, with what it does on being told once more.
def Reply.stops : Reply α → Nat
  | .done => 0
  | .stop _ next => next.stops + 1
  | .ask _ _ reply next => reply.stops + next.stops

instance : Coe (Option Node) (Reply Node) := ⟨fun node => node.elim .done (.stop · .done)⟩

-- Who is told when a node has ended.
inductive Listener where
  -- A node that is composed of it.
  | whole (id : NodeId)
  -- The instrument that plays it.
  | voice (instrument : InstrumentId) (id : VoiceId)
  | caller (tag : String) (reply : Reply Node)

structure NodeState where
  node : Node
  voice : Option VoiceId
  started : Bool
  connected : Bool
  disconnected : Bool
  ended : Bool
  -- Members whose end is still to come.
  awaiting : List NodeId
  listeners : List Listener

-- What an observer or a listener hears, under its tag.
inductive Notice where
  | observed (tag : String) (event : Event)
  -- A reaction failed; without a cause, the value could not be played.
  | failed (tag : String) (cause : Option Error)
  | nodeEnded (tag : String)
  | hostEnded (tag : String)

-- The nodes that a builder has memoized.
structure Builder where
  context : ContextId
  memo : List (String × Node)

structure Studio where
  engines : Array Engine
  nodes : Array NodeState
  instruments : Array Instrument
  builders : Array Builder
  -- Every request of a caller to be told of the end of a node, with its tag.
  asked : List (NodeId × String)
  heard : Array Notice
  warnings : List Warning

def Studio.new (rate : Float) : Studio := ⟨#[.new rate], #[], #[], #[], [], #[], []⟩

-- An act that fails leaves the studio as it was when it failed; what was done before stays done.
abbrev Act := EStateM Error Studio

def Studio.engine (studio : Studio) (context : ContextId) : Engine :=
  studio.engines[context]?.getD (.new 0)

def Studio.inputs (studio : Studio) (node : Node) : Nat :=
  node.findInputs fun context host => (studio.engine context).inputs host

def Studio.now (studio : Studio) (context : ContextId) : Float := (studio.engine context).now

-- Bounds how many reactions can follow from one another.
def Studio.credit (studio : Studio) : Nat := studio.instruments.foldl (· + ·.credit) 0

namespace Act

def ofExcept (f : ε → Error) : Except ε α → Act α
  | .ok a => pure a
  | .error e => throw (f e)

def warn (warning : Warning) : Act Unit :=
  modify fun studio => { studio with warnings := studio.warnings ++ [warning] }

-- Reading text may warn.
def reading (read : EStateM Error (List Warning) α) : Act α := fun studio =>
  match read studio.warnings with
  | .ok a warnings => .ok a { studio with warnings }
  | .error e warnings => .error e { studio with warnings }

def hear (notice : Notice) : Act Unit :=
  modify fun studio => { studio with heard := studio.heard.push notice }

def openContext (rate : Float) : Act ContextId :=
  modifyGet fun studio =>
    (studio.engines.size, { studio with engines := studio.engines.push (.new rate) })

def engine (context : ContextId) : Act Engine := return (← get).engine context

def setEngine (context : ContextId) (engine : Engine) : Act Unit :=
  modify fun studio => { studio with engines := studio.engines.modify context fun _ => engine }

-- A call of the host; what it refuses, fails.
def host (context : ContextId) (call : Engine → Except HostFault Engine) : Act Unit := do
  setEngine context (← ofExcept .host (call (← engine context)))

def createHost (context : ContextId) (kind : NodeKind) : Act HostId := do
  let (id, engine) := (← engine context).create kind
  setEngine context engine
  return id

def now (context : ContextId) : Act Float := return (← get).now context

end Act

-- What has happened to a node.
def Node.state (node : Node) (studio : Studio) : NodeState :=
  studio.nodes[node.id]?.getD ⟨node, none, false, false, false, false, [], []⟩

def Act.changeNode (id : NodeId) (f : NodeState → NodeState) : Act Unit :=
  modify fun studio => { studio with nodes := studio.nodes.modify id f }

def Act.changeInstrument (id : InstrumentId) (f : Instrument → Instrument) : Act Unit :=
  modify fun studio => { studio with instruments := studio.instruments.modify id f }

def Act.instrument (id : InstrumentId) : Act Instrument :=
  return ((← get).instruments[id]?).getD (.new 0)

end Patchbay
