import Patchbay.Node.Lifetime

namespace Patchbay

inductive Target where
  | output
  | node (node : Node)
  | param (node : Node) (param : Param)

namespace Node

-- Connects without asking where the endpoint lives.
def connectEndpoint (node : Node) (endpoint : Endpoint) : Act Unit := do
  Act.host node.context (·.connect node.outputHost endpoint)
  Act.changeNode node.id fun state => { state with connected := true }

def checkContext (node other : Node) : Act Unit := do
  if node.context ≠ other.context then throw (.host (.acrossContexts node.label other.label))

def findParam (node : Node) (param : Param) : Act HostId :=
  Act.ofExcept (·) (node.paramHost param)

def connect (node : Node) (target : Target) : Act Unit := do
  match target with
  | .output => node.connectEndpoint (.node Engine.destination)
  | .node other =>
    node.checkContext other
    node.connectEndpoint (.node other.inputHost)
  | .param other param =>
    node.checkContext other
    node.connectEndpoint (.param (← other.findParam param) param)

-- Nodes composed of several hold no buffer, but a wrapper hands it on.
def setBuffer : Node → Act Unit
  | .leaf info host _ _ _ => Act.host info.context (·.setBuffer host)
  | .wrapped _ inner _ => inner.setBuffer
  | .envelope info _ _ _ | .series info _ _ | .parallel info _ _ _ =>
    throw (.config (.holdsNoBuffer info.label))

end Node

-- Sets a parameter of a host. A node that drives it adds to 0 from then on, and is returned.
def Drive.plug (context : ContextId) (host : HostId) (param : Param) :
    Option Drive → Act (Option Node)
  | none => return none
  | some (.fixed x) => do
    Act.host context (·.setParam host param x)
    return none
  | some (.source node) => do
    Act.host context (·.setParam host param 0)
    node.connectEndpoint (.param host param)
    return some node

-- A contour tied to the parameter that it moves.
structure Motion where
  context : ContextId
  host : HostId
  param : Param
  contour : Contour

namespace Motion

def ofNode (contour : Contour) (node : Node) (param : Param) : Act Motion :=
  return ⟨node.context, ← node.findParam param, param, contour⟩

def run (motion : Motion) (time : Float) : Act Unit :=
  motion.contour.schedule motion.context motion.host motion.param time

end Motion

end Patchbay
