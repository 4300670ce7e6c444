import Patchbay.Host.Fault

namespace Patchbay

inductive HostCall where
  | create (id : HostId) (kind : String)
  | connect (source : HostId) (target : Endpoint)
  | disconnect (id : HostId)
  | start (id : HostId) (time : Float)
  | stop (id : HostId) (time : Float)
  | setParam (id : HostId) (param : Param) (value : Float)
  | setBuffer (id : HostId)
  | schedule (id : HostId) (param : Param) (event : Automation)

-- Who is told that a source has ended: a node by its number, or a listener by its tag.
inductive Watcher where
  | node (id : Nat)
  | tag (tag : String)
  deriving DecidableEq

structure HostNode where
  -- Nothing creates the final output, so it has no kind.
  kind : Option NodeKind
  value : Param → Float
  hasBuffer : Bool
  startedAt : Option Float
  stopAt : Option Float
  ended : Bool
  disconnected : Bool
  watchers : List Watcher

namespace HostNode

def ofKind (kind : Option NodeKind) : HostNode where
  kind
  value := fun _ => 0
  hasBuffer := kind.any NodeKind.hasBuffer
  startedAt := none
  stopAt := none
  ended := false
  disconnected := false
  watchers := []

def name (node : HostNode) : String := node.kind.elim "Destination" NodeKind.name

def inputs (node : HostNode) : Nat := node.kind.elim 1 NodeKind.inputs

def isSource (node : HostNode) : Bool := node.kind.any NodeKind.isSource

def params (node : HostNode) : List Param := node.kind.elim [] NodeKind.params

def hasParam (node : HostNode) (param : Param) : Bool := node.params.contains param

def param? (node : HostNode) (param : Param) : Option Float :=
  if node.hasParam param then some (node.value param) else none

def endTime (node : HostNode) : Option Float :=
  match node.startedAt, node.stopAt, node.kind.bind NodeKind.naturalLength with
  | none, _, _ => none
  | some start, some stop, some length => some (Time.earlier stop (start + length))
  | some _, some stop, none => some stop
  | some start, none, some length => some (start + length)
  | some _, none, none => none

-- When it ends, if that is now or past and nobody has been told.
def due (node : HostNode) (now : Float) : Option Float :=
  if node.isSource && !node.ended then node.endTime.filter (· ≤ now) else none

def setValue (node : HostNode) (param : Param) (x : Float) : HostNode :=
  { node with value := fun p => if p = param then x else node.value p }

end HostNode

-- The clock moves only when it is told to, and every call that is accepted is logged.
structure Engine where
  rate : Float
  now : Float
  -- Number 0 is the final output.
  nodes : Array HostNode
  calls : Array HostCall

namespace Engine

def new (rate : Float) : Engine := ⟨rate, 0, #[.ofKind none], #[]⟩

def destination : HostId := 0

def created (engine : Engine) : Nat := engine.nodes.size - 1

def find (engine : Engine) (id : HostId) : Except HostFault HostNode :=
  match engine.nodes[id]? with
  | some node => .ok node
  | none => .error (.unknownNode id)

def record (engine : Engine) (call : HostCall) : Engine :=
  { engine with calls := engine.calls.push call }

def change (engine : Engine) (id : HostId) (f : HostNode → HostNode) : Engine :=
  { engine with nodes := engine.nodes.modify id f }

def create (engine : Engine) (kind : NodeKind) : HostId × Engine :=
  let id := engine.nodes.size
  (id, { engine with nodes := engine.nodes.push (.ofKind (some kind)) }.record
    (.create id kind.name))

def inputs (engine : Engine) (id : HostId) : Nat := engine.nodes[id]?.elim 0 HostNode.inputs

def connect (engine : Engine) (source : HostId) (target : Endpoint) : Except HostFault Engine := do
  let _ ← engine.find source
  match target with
  | .node id =>
    if (← engine.find id).inputs = 0 then throw (.noInputs id)
  | .param id param =>
    if !(← engine.find id).hasParam param then throw (.noParam id param)
  return engine.record (.connect source target)

def disconnect (engine : Engine) (id : HostId) : Except HostFault Engine := do
  let _ ← engine.find id
  return (engine.change id fun node => { node with disconnected := true }).record (.disconnect id)

-- A source plays once.
def start (engine : Engine) (id : HostId) (time : Float) : Except HostFault Engine := do
  let node ← engine.find id
  if !node.isSource then throw (.cannotStart node.name id)
  if node.startedAt.isSome then throw (.startedAlready node.name id)
  return (engine.change id fun node => { node with startedAt := some time }).record
    (.start id time)

-- The last stop counts.
def stop (engine : Engine) (id : HostId) (time : Float) : Except HostFault Engine := do
  let node ← engine.find id
  if node.startedAt.isNone then throw (.notStarted node.name id)
  return (engine.change id fun node => { node with stopAt := some time }).record (.stop id time)

def setParam (engine : Engine) (id : HostId) (param : Param) (x : Float) :
    Except HostFault Engine := do
  if !(← engine.find id).hasParam param then throw (.noParam id param)
  return (engine.change id (·.setValue param x)).record (.setParam id param x)

-- The length of a source is settled when it is created; a later buffer does not change it.
def setBuffer (engine : Engine) (id : HostId) : Except HostFault Engine := do
  let node ← engine.find id
  if !node.kind.any NodeKind.holdsBuffer then throw (.noBuffer node.name id)
  return (engine.change id fun node => { node with hasBuffer := true }).record (.setBuffer id)

def schedule (engine : Engine) (id : HostId) (param : Param) (event : Automation) :
    Except HostFault Engine := do
  if !(← engine.find id).hasParam param then throw (.noParam id param)
  return engine.record (.schedule id param event)

def watch (engine : Engine) (id : HostId) (watcher : Watcher) : Engine :=
  engine.change id fun node => { node with watchers := node.watchers ++ [watcher] }

-- The clock never goes back.
def advance (engine : Engine) (time : Float) : Engine :=
  { engine with now := Time.later engine.now time }

structure Ending where
  time : Float
  host : HostId
  watchers : List Watcher

-- The earlier end comes first, and of two at once the older node.
def Ending.before (a b : Ending) : Bool :=
  Time.precedes a.time b.time || (!Time.precedes b.time a.time && a.host ≤ b.host)

def endings (engine : Engine) : List Ending :=
  engine.nodes.toList.zipIdx.filterMap fun (node, host) =>
    (node.due engine.now).map fun time => ⟨time, host, node.watchers⟩

-- Every source that is due has ended; its watchers are handed over in the order of the ends.
def endDue (engine : Engine) : List Ending × Engine :=
  let close (node : HostNode) : HostNode :=
    if (node.due engine.now).isSome then { node with ended := true, watchers := [] } else node
  (engine.endings.mergeSort Ending.before, { engine with nodes := engine.nodes.map close })

def automation (engine : Engine) (id : HostId) (param : Param) : List Automation :=
  engine.calls.toList.filterMap fun
    | .schedule host p event => if host = id ∧ p = param then some event else none
    | _ => none

def starts (engine : Engine) : List (HostId × Float) :=
  engine.calls.toList.filterMap fun
    | .start id time => some (id, time)
    | _ => none

def stops (engine : Engine) : List (HostId × Float) :=
  engine.calls.toList.filterMap fun
    | .stop id time => some (id, time)
    | _ => none

def connections (engine : Engine) (id : HostId) : List Endpoint :=
  engine.calls.toList.filterMap fun
    | .connect source target => if source = id then some target else none
    | _ => none

def isConnected (engine : Engine) (id : HostId) (target : Endpoint) : Bool :=
  (engine.connections id).contains target

end Engine

end Patchbay
