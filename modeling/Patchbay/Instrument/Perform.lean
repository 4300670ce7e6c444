import Patchbay.Synth.Voice

namespace Patchbay

inductive Play where
  | node (node : Node)
  | value (x : Float)

namespace Instrument

-- How an event reaches the observers of its instrument.
abbrev Emit := InstrumentId → Event → Act Unit

def countVoices (emit : Emit) (inst : InstrumentId) : Act Unit := do
  emit inst (.voices (← Act.instrument inst).voices.length)

-- What happens when the node of a voice has ended.
def remove (emit : Emit) (inst : InstrumentId) (id : VoiceId) : Act Unit := do
  match (← Act.instrument inst).voice? id with
  | none => pure ()
  | some voice =>
    Act.changeInstrument inst (·.erase id)
    try voice.node.disconnect
    catch e => Act.warn (.stuckVoice id e.message)
    emit inst (.ended id)
    countVoices emit inst

-- A node that has ended already leaves at once.
def track (emit : Emit) (inst : InstrumentId) (node : Node) : Act VoiceId := do
  let id := (← Act.instrument inst).nextId
  Act.changeInstrument inst (·.register node)
  Act.changeNode node.id fun state => { state with voice := some id }
  if (node.state (← get)).ended then remove emit inst id
  else Act.changeNode node.id fun state =>
    { state with listeners := state.listeners ++ [.voice inst id] }
  return id

-- Stops each at the time given for its node, in order.
def stopEach (inst : InstrumentId) (timeFor : Node → Act Float) : List Voice → Act Unit
  | [] => pure ()
  | voice :: rest => do
    voice.node.stop (← timeFor voice.node)
    Act.changeInstrument inst (·.markStopped voice.id)
    stopEach inst timeFor rest

-- The voices with the given ids, or all of them; ids that are not registered are passed over.
def named (inst : Instrument) : Option (List VoiceId) → List Voice
  | none => inst.voices
  | some ids => ids.filterMap inst.voice?

def stop (inst : InstrumentId) (ids : Option (List VoiceId)) (time delay : Option Float) :
    Act Unit := do
  stopEach inst (fun node => return Time.resolve time delay (← Act.now node.context))
    ((← Act.instrument inst).named ids)

-- Makes room for a voice that is to start at `time`.
def steal (inst : InstrumentId) (time : Float) : Act Unit := do
  stopEach inst (fun _ => return time) (← Act.instrument inst).excess

def nodeFor (inst : Instrument) : Play → Act Node
  | .node node => return node
  | .value x =>
    match inst.synth with
    | some recipe => recipe.build inst.context x
    | none => throw .noSynth

-- The voice is registered before it starts. A duration above 0 stops it again.
def startWith (emit : Emit) (inst : InstrumentId) (play : Play)
    (time delay duration : Option Float) : Act Node := do
  let state ← Act.instrument inst
  let node ← state.nodeFor play
  match state.destination with
  | some destination => node.connect (.node destination)
  | none => pure ()
  let time := Time.resolve time delay (← Act.now node.context)
  steal inst time
  let id ← track emit inst node
  node.start time
  match duration.filter (0 < ·) with
  | some duration => node.stop (time + duration)
  | none => pure ()
  emit inst (.started id time)
  countVoices emit inst
  return node

def observe (inst : InstrumentId) (topic : Topic) (observer : Observer) : Act Unit :=
  Act.changeInstrument inst fun i => i.observing topic (i.observers topic ++ [observer])

def perform (emit : Emit) (inst : InstrumentId) (topic : Topic) (tag : String) :
    Reaction → Act Unit
  | .subscribe => observe inst topic (.plain (tag ++ "'"))
  | .play none _ => Act.hear (.failed tag none)
  | .play (some x) duration =>
    try discard (startWith emit inst (.value x) none none duration)
    catch e => Act.hear (.failed tag (some e))
  | .stopAll =>
    try stop inst none none none
    catch e => Act.hear (.failed tag (some e))

def tell (emit : Emit) (inst : InstrumentId) (event : Event) (observer : Observer) :
    Act Observer := do
  Act.hear (.observed observer.tag event)
  let (reaction, observer) := observer.react
  match reaction with
  | some reaction => perform emit inst event.topic observer.tag reaction
  | none => pure ()
  return observer

-- The event is on record before anyone hears it.
def announce : Emit := fun inst event => Act.changeInstrument inst (·.note event)

-- The observers of now are called; whoever has joined by the time they are through comes after them.
def circulate (inst : InstrumentId) (topic : Topic) (call : Observer → Act Observer) : Act Unit := do
  let observers := (← Act.instrument inst).observers topic
  Act.changeInstrument inst (·.observing topic [])
  let observers ← observers.mapM call
  Act.changeInstrument inst fun i => i.observing topic (observers ++ i.observers topic)

-- `emit` is for the events that follow from the reactions.
def deliver (emit : Emit) (inst : InstrumentId) (event : Event) : Act Unit := do
  announce inst event
  circulate inst event.topic (tell emit inst event)

-- With as many reactions to come as the depth, the innermost event meets no reaction any more.
def emitAt : Nat → Emit
  | 0 => deliver announce
  | depth + 1 => deliver (emitAt depth)

def emitter : Act Emit := return emitAt (← get).credit

def start (inst : InstrumentId) (play : Play) (time delay duration : Option Float) : Act Node := do
  startWith (← emitter) inst play time delay duration

end Instrument

end Patchbay
