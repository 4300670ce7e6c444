import Patchbay.Node.Wiring

namespace Patchbay.Node

-- Only lengths above 0 are kept.
def length (x : Option Float) : Option Float := x.filter (0 < ·)

-- Has the studio know the node, which takes the next number. Members that have ended already are
-- not waited for.
def enrol (context : ContextId) (label : String) (duration release : Option Float)
    (make : NodeInfo → Node) : Act Node := do
  let studio ← get
  let id := studio.nodes.size
  let node := make ⟨id, context, label, length duration, length release⟩
  let hasEnded (id : NodeId) : Bool := (studio.nodes[id]?).any (·.ended)
  let awaiting := node.awaited.filter (!hasEnded ·)
  let ended := !node.awaited.isEmpty && awaiting.isEmpty
  set { studio with nodes := studio.nodes.push ⟨node, none, false, false, false, ended, awaiting, []⟩ }
  awaiting.forM fun member => Act.changeNode member fun state =>
    { state with listeners := state.listeners ++ [.whole id] }
  return node

-- Each parameter with a drive is set, and the nodes that drive them are gathered.
def bind (context : ContextId) (host : HostId) (kind : NodeKind) :
    List (Param × Option Drive) → Act (List Node)
  | [] => return []
  | (_, none) :: rest => bind context host kind rest
  | (param, some drive) :: rest => do
    if !kind.params.contains param then
      throw (.unknownParam (kind.name ++ hostLabel host) param)
    let modulator ← Drive.plug context host param (some drive)
    return modulator.toList ++ (← bind context host kind rest)

-- The longest release among the modulators; they sweep on through it.
def longestRelease (modulators : List Node) : Option Float :=
  match (modulators.filter isStartable).filterMap release with
  | [] => none
  | first :: rest => some (rest.foldl Time.later first)

def ofKind (context : ContextId) (kind : NodeKind) (params : List (Param × Option Drive)) :
    Act Node := do
  let host ← Act.createHost context kind
  let modulators ← bind context host kind params
  let node ← enrol context (kind.name ++ hostLabel host) kind.naturalLength
    (longestRelease modulators) fun info => .leaf info host kind.isSource kind.params modulators
  if kind.isSource then
    let engine ← Act.engine context
    Act.setEngine context (engine.watch host (.node node.id))
  return node

def destination (context : ContextId) : Act Node :=
  enrol context "Destination" none none fun info => .leaf info Engine.destination false [] []

-- Each into the next, except into what takes no input.
def chain (node : Node) : List Node → Act Unit
  | [] => pure ()
  | next :: rest => do
    if (← get).inputs next ≠ 0 then node.connect (.node next)
    next.chain rest

-- As long as its longest part, and sounding on for the sum of the releases. A single node stays as
-- it is.
def inSeries (head : Node) (tail : List Node) : Act Node := do
  match tail.getLast? with
  | none => return head
  | some last =>
    head.chain tail
    let parts := head :: tail
    let duration := parts.foldl (fun x part => Time.later x (part.duration.getD 0)) 0
    let release := (parts.filter isStartable).foldl (fun x part => x + part.release.getD 0) 0
    enrol head.context ("Series(" ++ head.label ++ ".." ++ last.label ++ ")")
      (some duration) (some release) fun info => .series info head tail

-- The longest of the lengths, if every one is known.
def longest : List Node → Option Float
  | [] => some 0
  | node :: rest => do return Time.later (← node.duration) (← longest rest)

-- From the input if it takes one, and to the output.
def joinBranch (context : ContextId) (input output : HostId) (branch : Node) : Act Unit := do
  if 0 < (← get).inputs branch then
    Act.host context (·.connect input (.node branch.inputHost))
  branch.connectEndpoint (.node output)

-- All between a common input and a common output.
def inParallel (first : Node) (rest : List Node) : Act Node := do
  let branches := first :: rest
  let context := first.context
  let input ← Act.createHost context .gain
  let output ← Act.createHost context .gain
  Act.host context (·.setParam input .gain 1)
  Act.host context (·.setParam output .gain 1)
  branches.forM (joinBranch context input output)
  let release := branches.foldl (fun x branch => Time.later x (branch.release.getD 0)) 0
  enrol context ("Parallel" ++ hostLabel input) (longest branches) (some release)
    fun info => .parallel info input output branches

-- The others are started, stopped and disconnected along with the node. With none it stays as it is.
def wrap (inner : Node) (others : List Node) : Act Node := do
  if others.isEmpty then return inner
  let node ← enrol inner.context (inner.label ++ "+" ++ toString others.length)
    inner.duration inner.release fun info => .wrapped info inner others
  let connected := (inner.state (← get)).connected
  Act.changeNode node.id fun state => { state with connected }
  return node

end Patchbay.Node
