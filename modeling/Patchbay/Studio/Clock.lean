import Patchbay.Instrument.Perform

namespace Patchbay

namespace Node

-- The caller is told when the node has ended, or now if it has.
def tellEnd (node : Node) (tag : String) (reply : Reply Node) (callBack : Act Unit) : Act Unit := do
  modify fun studio => { studio with asked := studio.asked ++ [(node.id, tag)] }
  if (node.state (← get)).ended then callBack
  else Act.changeNode node.id fun state =>
    { state with listeners := state.listeners ++ [.caller tag reply] }

-- A node is stopped at once, on its own clock. If it cannot be, the caller hears why.
def answer (tag : String) : Reply Node → Act Unit
  | .done => pure ()
  | .stop node next => do
    try node.stop (← Act.now node.context)
    catch e => Act.hear (.failed tag (some e))
    answer tag next
  | .ask node other reply next => do
    tellEnd node other reply do
      Act.hear (.nodeEnded other)
      answer other reply
    answer tag next

def callBack (tag : String) (reply : Reply Node) : Act Unit := do
  Act.hear (.nodeEnded tag)
  answer tag reply

def onEnded (node : Node) (tag : String) (reply : Reply Node) : Act Unit :=
  tellEnd node tag reply (callBack tag reply)

-- A member of the node has ended; tells whether it was the last.
def memberEnded (whole member : NodeId) : Act Bool := do
  Act.changeNode whole fun state => { state with awaiting := state.awaiting.erase member }
  return ((← get).nodes[whole]?).any (·.awaiting.isEmpty)

-- A node ends once. Its listeners are told in the order in which they came. A whole has a greater
-- number than its members, so the number of nodes bounds how far an end carries.
def ending (emit : Instrument.Emit) : Nat → NodeId → Act Unit
  | 0, _ => pure ()
  | bound + 1, id => do
    match (← get).nodes[id]? with
    | none => pure ()
    | some state =>
      if state.ended then return
      Act.changeNode id fun state => { state with ended := true, listeners := [] }
      state.listeners.forM fun
        | .whole whole => do
          if ← memberEnded whole id then ending emit bound whole
        | .voice inst voice => Instrument.remove emit inst voice
        | .caller tag reply => callBack tag reply

end Node

namespace Studio

def stops : Listener → Nat
  | .caller _ reply => reply.stops
  | .whole _ | .voice _ _ => 0

-- How often a round of ends can bring about another: each time a caller has a node stopped, or a
-- reaction of an observer is used up.
def roundsAhead (studio : Studio) : Nat :=
  studio.nodes.foldl (fun n state => state.listeners.foldl (· + stops ·) n) studio.credit

end Studio

namespace Act

def notify (emit : Instrument.Emit) : Watcher → Act Unit
  | .node id => do Node.ending emit (← get).nodes.size id
  | .tag tag => hear (.hostEnded tag)

-- Ends what is due until nothing is.
def settle (emit : Instrument.Emit) (context : ContextId) : Nat → Act Unit
  | 0 => pure ()
  | rounds + 1 => do
    let (endings, engine) := (← Act.engine context).endDue
    if endings.isEmpty then return
    setEngine context engine
    endings.forM fun ending => ending.watchers.forM (notify emit)
    settle emit context rounds

-- The clock of one host reaches a time.
def advanceTo (context : ContextId) (time : Float) : Act Unit := do
  setEngine context ((← engine context).advance time)
  let studio ← get
  settle (← Instrument.emitter) context (studio.roundsAhead + 2)

def advanceBy (context : ContextId) (seconds : Float) : Act Unit := do
  advanceTo context ((← now context) + seconds)

end Act

end Patchbay
