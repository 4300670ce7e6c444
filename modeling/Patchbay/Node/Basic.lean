import Patchbay.Host.Engine
import Patchbay.Error

namespace Patchbay

abbrev NodeId := Nat
abbrev VoiceId := Nat

-- The host that a node lives on.
abbrev ContextId := Nat

structure NodeInfo where
  id : NodeId
  context : ContextId
  label : String
  -- Seconds until it stops by itself, when that is known.
  duration : Option Float
  -- Seconds that it sounds on after a stop.
  release : Option Float

-- A node says how it was composed. What has happened to it is kept by the studio under its number, so
-- a node that stands in two places is still one node.
inductive Node where
  | leaf (info : NodeInfo) (host : HostId) (source : Bool) (params : List Param)
      (modulators : List Node)
  | envelope (info : NodeInfo) (host : HostId) (attack : Contour) (release : Option Contour)
  | series (info : NodeInfo) (head : Node) (tail : List Node)
  | parallel (info : NodeInfo) (input output : HostId) (branches : List Node)
  -- Heard as its inner node; the others only share its lifetime.
  | wrapped (info : NodeInfo) (inner : Node) (others : List Node)

-- What a parameter is set to: a number, or a node that modulates it.
inductive Drive where
  | fixed (x : Float)
  | source (node : Node)

namespace Node

def info : Node → NodeInfo
  | .leaf info _ _ _ _ | .envelope info _ _ _ | .series info _ _ | .parallel info _ _ _
  | .wrapped info _ _ => info

def id (node : Node) : NodeId := node.info.id

def context (node : Node) : ContextId := node.info.context

def label (node : Node) : String := node.info.label

def duration (node : Node) : Option Float := node.info.duration

def release (node : Node) : Option Float := node.info.release

-- Nodes that are started, stopped and disconnected along with it, after its own part.
def dependents : Node → List Node
  | .leaf _ _ _ _ modulators => modulators
  | .envelope _ _ _ _ => []
  | .series _ _ tail => tail
  | .parallel _ _ _ branches => branches
  | .wrapped _ _ others => others

-- The nodes whose ends make up its own end.
def members : Node → List Node
  | .leaf _ _ _ _ _ | .envelope _ _ _ _ => []
  | .series _ head tail => head :: tail
  | .parallel _ _ _ branches => branches
  | .wrapped _ inner _ => [inner]

-- A start reaches something.
mutual
def isStartable : Node → Bool
  | .leaf _ _ source _ modulators => source || anyStartable modulators
  | .envelope _ _ _ _ => true
  | .series _ head tail => head.isStartable || anyStartable tail
  | .parallel _ _ _ branches => anyStartable branches
  | .wrapped _ inner others => inner.isStartable || anyStartable others

def anyStartable : List Node → Bool
  | [] => false
  | node :: rest => node.isStartable || anyStartable rest
end

-- Only sources end, and what is composed of them. Envelopes and modulators do not count.
mutual
def emitsEnded : Node → Bool
  | .leaf _ _ source _ _ => source
  | .envelope _ _ _ _ => false
  | .series _ head tail => head.emitsEnded || anyEmits tail
  | .parallel _ _ _ branches => anyEmits branches
  | .wrapped _ inner _ => inner.emitsEnded

def anyEmits : List Node → Bool
  | [] => false
  | node :: rest => node.emitsEnded || anyEmits rest
end

-- The members to wait for. One that is shared counts once, as it ends once.
def awaited (node : Node) : List NodeId := ((node.members.filter emitsEnded).map id).eraseDups

def inputHost : Node → HostId
  | .leaf _ host _ _ _ | .envelope _ host _ _ => host
  | .series _ head _ => head.inputHost
  | .parallel _ input _ _ => input
  | .wrapped _ inner _ => inner.inputHost

mutual
def outputHost : Node → HostId
  | .leaf _ host _ _ _ | .envelope _ host _ _ => host
  | .series _ head tail => lastHost head.outputHost tail
  | .parallel _ _ output _ => output
  | .wrapped _ inner _ => inner.outputHost

-- The output of the last node of a chain.
def lastHost (host : HostId) : List Node → HostId
  | [] => host
  | node :: rest => lastHost node.outputHost rest
end

-- Where the parameters of a composed node are: those of its first part. A mix has none.
def paramHost : Node → Param → Except Error HostId
  | .leaf info host _ params _, param =>
    if params.contains param then .ok host else .error (.unknownParam info.label param)
  | .envelope info host _ _, param =>
    if param = .gain then .ok host else .error (.unknownParam info.label param)
  | .series _ head _, param => head.paramHost param
  | .parallel info _ _ _, param => .error (.unknownParam info.label param)
  | .wrapped _ inner _, param => inner.paramHost param

def findInputs (inputs : ContextId → HostId → Nat) : Node → Nat
  | .leaf info host _ _ _ | .envelope info host _ _ => inputs info.context host
  | .series _ head _ => head.findInputs inputs
  | .parallel _ _ _ _ => 1
  | .wrapped _ inner _ => inner.findInputs inputs

end Node

end Patchbay
