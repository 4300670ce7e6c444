import Patchbay.Studio.Basic

namespace Patchbay

namespace Contour

-- Each stage ends its duration after the one before.
def scheduleStages (context : ContextId) (host : HostId) (param : Param) (time : Float) :
    List Stage → Act Unit
  | [] => pure ()
  | stage :: rest => do
    let time := time + stage.duration
    Act.host context (·.schedule host param ⟨stage.curve, stage.target, time⟩)
    scheduleStages context host param time rest

-- A contour cannot begin in the past.
def schedule (contour : Contour) (context : ContextId) (host : HostId) (param : Param)
    (time : Float) : Act Unit := do
  let time := Time.resolve (some time) none (← Act.now context)
  scheduleStages context host param time contour.stages

end Contour

namespace Node

def checkTime (node : Node) (time : Float) : Act Unit := do
  if !time.isFinite then throw (.invalidTime node.label time)

-- A source that was never started needs no stop.
def stopSource (node : Node) (host : HostId) (time : Float) : Act Unit := do
  if (node.state (← get)).started then Act.host node.context (·.stop host time)

mutual
def stop (node : Node) (time : Float) : Act Unit := do
  node.checkTime time
  if (node.state (← get)).disconnected then return
  match node with
  | .leaf info host source params modulators => do
    if source then stopSource (.leaf info host source params modulators) host time
    stopAll modulators time
  | .envelope info host _ release =>
    match release with
    | some release => release.schedule info.context host .gain time
    | none => pure ()
  | .series _ head tail => do
    let time ← stopChain tail time
    if head.isStartable then head.stop time
  | .parallel _ _ _ branches => stopAll branches time
  | .wrapped _ inner others => do
    if inner.isStartable then inner.stop time
    stopAll others time

def stopAll : List Node → Float → Act Unit
  | [], _ => pure ()
  | node :: rest, time => do
    if node.isStartable then node.stop time
    stopAll rest time

-- Stops the chain from its end and gives the time when what feeds it may stop.
def stopChain : List Node → Float → Act Float
  | [], time => pure time
  | node :: rest, time => do
    let time ← stopChain rest time
    if node.isStartable then
      node.stop time
      return time + node.release.getD 0
    else return time
end

-- A source starts once; later starts are ignored.
def startSource (node : Node) (host : HostId) (time : Float) : Act Unit := do
  if (node.state (← get)).started then return
  Act.changeNode node.id fun state => { state with started := true }
  Act.host node.context (·.start host time)

-- What has a length is stopped at its end.
def stopAtEnd (node : Node) (time : Float) : Act Unit :=
  match node.duration with
  | some duration => node.stop (time + duration)
  | none => pure ()

mutual
def start (node : Node) (time : Float) : Act Unit := do
  node.checkTime time
  match node with
  | .leaf info host source params modulators => do
    if source then startSource (.leaf info host source params modulators) host time
    startAll modulators time
  | .envelope info host attack _ => do
    Act.changeNode info.id fun state => { state with started := true }
    attack.schedule info.context host .gain time
  | .series _ head tail => do
    if head.isStartable then head.start time
    startAll tail time
  | .parallel _ _ _ branches => startAll branches time
  | .wrapped _ inner others => do
    if inner.isStartable then inner.start time
    startAll others time
  node.stopAtEnd time

def startAll : List Node → Float → Act Unit
  | [], _ => pure ()
  | node :: rest, time => do
    if node.isStartable then node.start time
    startAll rest time
end

mutual
def disconnect (node : Node) : Act Unit := do
  if (node.state (← get)).disconnected then return
  Act.changeNode node.id fun state => { state with disconnected := true }
  match node with
  | .leaf info host _ _ modulators => do
    if host ≠ Engine.destination then Act.host info.context (·.disconnect host)
    disconnectAll modulators
  | .envelope info host _ _ => Act.host info.context (·.disconnect host)
  | .series _ head tail => do
    head.disconnect
    disconnectAll tail
  | .parallel info input output branches => do
    Act.host info.context (·.disconnect input)
    Act.host info.context (·.disconnect output)
    disconnectAll branches
  | .wrapped _ inner others => do
    inner.disconnect
    disconnectAll others
  Act.changeNode node.id fun state => { state with connected := false }

def disconnectAll : List Node → Act Unit
  | [] => pure ()
  | node :: rest => do
    node.disconnect
    disconnectAll rest
end

end Node

end Patchbay
