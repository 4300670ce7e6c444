import Patchbay.Instrument.Setup
import Patchbay.Proofs.Ends.Callers
import Patchbay.Proofs.Disconnection.Roots
import Patchbay.Proofs.Ends.Delivery
import Patchbay.Plate

namespace Patchbay

def Studio.node? (studio : Studio) (id : NodeId) : Option Node := studio.nodes[id]?.map NodeState.node

def Studio.instrument (studio : Studio) (k : InstrumentId) : Instrument :=
  studio.instruments[k]?.getD (.new 0)

-- A drive whose node is given by its number.
inductive Knob where
  | fixed (x : Float)
  | node (id : NodeId)

def Knob.drive? (studio : Studio) : Knob → Option Drive
  | .fixed x => some (.fixed x)
  | .node id => (studio.node? id).map .source

inductive Socket where
  | output
  | node (id : NodeId)
  | param (id : NodeId) (param : Param)

def Socket.target? (studio : Studio) : Socket → Option Target
  | .output => some .output
  | .node id => (studio.node? id).map .node
  | .param id which => (studio.node? id).map (.param · which)

-- What may be given or not; given, it has to be there.
def ifGiven {α β : Type} (find : α → Option β) : Option α → Option (Option β)
  | none => some none
  | some a => (find a).map some

-- Whatever comes of it, if anything, is so.
theorem forall_some {α : Type} {P : α → Prop} {a : α} (h : P a) : ∀ x, some a = some x → P x :=
  fun _ hx => Option.some_inj.1 hx ▸ h

theorem forall_given {α β : Type} {P : β → Prop} {o : Option α} {f : α → Option β}
    (h : ∀ a, o = some a → ∀ x, f a = some x → P x) : ∀ x, (o >>= f) = some x → P x := by
  intro x hx
  obtain ⟨a, ha, hx⟩ := Option.bind_eq_some_iff.1 hx
  exact h a ha x hx

-- Every node that a reply names has to be there.
def Reply.find {α β : Type} (find : α → Option β) : Reply α → Option (Reply β)
  | .done => some .done
  | .stop node next => return .stop (← find node) (← next.find find)
  | .ask node tag reply next =>
    return .ask (← find node) tag (← reply.find find) (← next.find find)

inductive Maker where
  | gain (level : Knob)
  | gainOfDecibels (decibels : Float)
  | bypass
  | constant (value : Float)
  | signal (value : Knob)
  | scaled (factor : Knob) (node : NodeId)
  | spanning (low high : Float) (node : NodeId)
  | oscillator (waveform : Waveform) (frequency : Knob) (detune : Option Knob)
  | lfo (waveform : Waveform) (rate amplitude : Float)
  | bank (ratios : List Float) (settings : BankSettings)
  | filter (type : FilterType) (frequency : Knob) (q detune : Option Knob)
  | filterOf (settings : FilterSettings)
  | delay (time : Knob)
  | feedback (amount : Float) (node : NodeId)
  | echo (time : Knob) (filter : Option NodeId) (amount : Float)
  | mix (effect : NodeId) (wet : Option Float) (normalize : Bool)
  | tremolo (rate : Float) (waveform : Waveform)
  | convolver (impulse : Option Buffer) (normalize : Bool)
  | reverb (settings : ReverbSettings)
  | playback (buffer : Option Buffer) (looping : Bool) (detune : Option Knob)
  | noise (duration : Option Float) (looping : Bool)
  | shaper (attack : Contour) (release : Option Contour)
  | percussive (attack decay : Option Float)
  | swell (attack hold decay high low : Float)
  | adsr (settings : Adsr)
  | sweep (frequency octaves : Float) (settings : Adsr)
  | destination
  | series (head : NodeId) (tail : List NodeId)
  | parallel (first : NodeId) (rest : List NodeId)
  | wrap (inner : NodeId) (others : List NodeId)
  | subtractive (settings : SubtractiveSettings) (source : Option NodeId)
  | organ (registration : Registration) (frequency : Float)
  | patch (source : String)
  | patchWith (builder : BuilderId) (source : String)
  | plate (name : Option String)

open Node in
def Maker.act? (studio : Studio) (context : ContextId) : Maker → Option (Act Node)
  | .gain level => return Node.gain context (← level.drive? studio)
  | .gainOfDecibels decibels => some (Node.gainOfDecibels context decibels)
  | .bypass => some (Node.bypass context)
  | .constant value => some (Node.constant context value)
  | .signal value => return Node.signal context (← value.drive? studio)
  | .scaled factor node => return Node.scaled (← factor.drive? studio) (← studio.node? node)
  | .spanning low high node => return Node.spanning low high (← studio.node? node)
  | .oscillator waveform frequency detune =>
    return Node.oscillator context waveform (← frequency.drive? studio)
      (← ifGiven (Knob.drive? studio) detune)
  | .lfo waveform rate amplitude => some (Node.lfo context waveform rate amplitude)
  | .bank ratios settings => some (Node.bank context ratios settings)
  | .filter type frequency q detune =>
    return Node.filter context type (← frequency.drive? studio) (← ifGiven (Knob.drive? studio) q)
      (← ifGiven (Knob.drive? studio) detune)
  | .filterOf settings => some (Node.filterOf context settings)
  | .delay time => return Node.delay context (← time.drive? studio)
  | .feedback amount node => return Node.feedback amount (← studio.node? node)
  | .echo time tone amount =>
    return Node.echo context (← time.drive? studio) (← ifGiven studio.node? tone) amount
  | .mix effect wet normalize => return Node.mix (← studio.node? effect) wet normalize
  | .tremolo rate waveform => some (Node.tremolo context rate waveform)
  | .convolver impulse normalize => some (Node.convolver context impulse normalize)
  | .reverb settings => some (Node.reverb context settings)
  | .playback buffer looping detune =>
    return Node.playback context buffer looping (← ifGiven (Knob.drive? studio) detune)
  | .noise duration looping => some (Node.noise context duration looping)
  | .shaper attack release => some (Node.shaper context attack release)
  | .percussive attack decay => some (Node.percussive context attack decay)
  | .swell attack hold decay high low => some (Node.swell context attack hold decay high low)
  | .adsr settings => some (Node.adsr context settings)
  | .sweep frequency octaves settings => some (Node.sweep context frequency octaves settings)
  | .destination => some (Node.destination context)
  | .series head tail => return Node.inSeries (← studio.node? head) (← tail.mapM studio.node?)
  | .parallel first rest => return Node.inParallel (← studio.node? first) (← rest.mapM studio.node?)
  | .wrap inner others => return Node.wrap (← studio.node? inner) (← others.mapM studio.node?)
  | .subtractive settings source =>
    return Node.subtractive context settings (← ifGiven studio.node? source)
  | .organ registration frequency => some (Node.organ context registration frequency)
  | .patch source => some (Patch.build context source)
  | .patchWith builder source =>
    if builder < studio.builders.size then
      some do Builder.build builder (← Act.reading (Patch.parse source))
    else none
  | .plate name => some (Plate.node <$> Plate.install context name)

inductive Command where
  | openContext (rate : Float)
  | make (context : ContextId) (maker : Maker)
  | start (node : NodeId) (time : Float)
  | stop (node : NodeId) (time : Float)
  | disconnect (node : NodeId)
  | connect (node : NodeId) (socket : Socket)
  | setBuffer (node : NodeId)
  | move (contour : Contour) (node : NodeId) (param : Param) (time : Float)
  | onEnded (node : NodeId) (tag : String) (reply : Reply NodeId)
  | openBuilder (context : ContextId)
  | instrument (context : ContextId) (master : Bool) (synth : Option Recipe)
      (destination : Option NodeId) (maxVoices : Nat)
  | child (parent : InstrumentId) (synth : Option Recipe) (maxVoices : Nat)
  | sampler (context : ContextId) (font : Soundfont) (voice : SampleVoice)
      (destination : Option NodeId)
  | play (inst : InstrumentId) (node : NodeId) (time delay duration : Option Float)
  | playValue (inst : InstrumentId) (x : Float) (time delay duration : Option Float)
  | track (inst : InstrumentId) (node : NodeId)
  | stopVoices (inst : InstrumentId) (ids : Option (List VoiceId)) (time delay : Option Float)
  | observe (inst : InstrumentId) (topic : Topic) (observer : Observer)
  | advanceTo (context : ContextId) (time : Float)
  | advanceBy (context : ContextId) (seconds : Float)
  -- Calls of a host itself.
  | create (context : ContextId) (kind : NodeKind)
  | request (context : ContextId) (request : Request)
  | silence (context : ContextId) (host : HostId)
  | watch (context : ContextId) (host : HostId) (tag : String)
  | plug (context : ContextId) (host : HostId) (param : Param) (value : Option Knob)
  | schedule (contour : Contour) (context : ContextId) (host : HostId) (param : Param) (time : Float)
  | clearCalls (context : ContextId)

def Studio.hasInstrument (studio : Studio) (k : InstrumentId) : Bool := k < studio.instruments.size

def Studio.hasContext (studio : Studio) (context : ContextId) : Bool := context < studio.engines.size

def Instrument.setUp (context : ContextId) (master : Bool) (synth : Option Recipe)
    (destination : Option Node) (maxVoices : Nat) : Act Instrument := do
  let base ← if master then Instrument.master context else pure (.new context)
  return { base with synth, destination := destination.or base.destination, maxVoices }

-- Nothing but the log changes.
def Act.clearCalls (context : ContextId) : Act Unit := do
  setEngine context { ← engine context with calls := #[] }

-- A command does nothing if one of the numbers that it names is not there.
def Command.act? (studio : Studio) : Command → Option (Act Unit)
  | .openContext rate => some (discard (Act.openContext rate))
  | .make context maker => do
    guard (studio.hasContext context)
    return discard (← maker.act? studio context)
  | .start node time => return (← studio.node? node).start time
  | .stop node time => return (← studio.node? node).stop time
  | .disconnect node => return (← studio.node? node).disconnect
  | .connect node socket => return (← studio.node? node).connect (← socket.target? studio)
  | .setBuffer node => return (← studio.node? node).setBuffer
  | .move contour node param time => do
    let node ← studio.node? node
    return do (← Motion.ofNode contour node param).run time
  | .onEnded node tag reply =>
    return (← studio.node? node).onEnded tag (← reply.find studio.node?)
  | .openBuilder context => do
    guard (studio.hasContext context)
    return discard (Builder.new context)
  | .instrument context master synth destination maxVoices => do
    guard (studio.hasContext context)
    let destination ← ifGiven studio.node? destination
    return do discard (← Instrument.setUp context master synth destination maxVoices).add
  | .child parent synth maxVoices => do
    guard (studio.hasInstrument parent)
    return discard (((studio.instrument parent).child synth maxVoices).add)
  | .sampler context font voice destination => do
    guard (studio.hasContext context)
    let destination ← ifGiven studio.node? destination
    return do discard (← Instrument.sampler context font voice destination).add
  | .play inst node time delay duration => do
    guard (studio.hasInstrument inst)
    let node ← studio.node? node
    return discard (Instrument.start inst (.node node) time delay duration)
  | .playValue inst x time delay duration => do
    guard (studio.hasInstrument inst)
    return discard (Instrument.start inst (.value x) time delay duration)
  | .track inst node => do
    guard (studio.hasInstrument inst)
    let node ← studio.node? node
    return do discard (Instrument.track (← Instrument.emitter) inst node)
  | .stopVoices inst ids time delay => some (Instrument.stop inst ids time delay)
  | .observe inst topic observer => some (Instrument.observe inst topic observer)
  | .advanceTo context time => some (Act.advanceTo context time)
  | .advanceBy context seconds => some (Act.advanceBy context seconds)
  | .create context kind => do
    guard (studio.hasContext context)
    return discard (Act.createHost context kind)
  | .request context call => some (Act.host context call.send)
  | .silence context host => do
    guard (studio.ledger.host context host).isSome
    return Act.host context (·.disconnect host)
  | .watch context host tag =>
    some do Act.setEngine context ((← Act.engine context).watch host (.tag tag))
  | .plug context host param value => do
    let value ← ifGiven (Knob.drive? studio) value
    return discard (Drive.plug context host param value)
  | .schedule contour context host param time => some (contour.schedule context host param time)
  | .clearCalls context => some (Act.clearCalls context)

-- What a command that is carried out adds to what has been disconnected.
def Command.record (studio : Studio) (past : Past) : Command → Past
  | .disconnect node => { past with dropped := past.dropped ++ (studio.node? node).toList }
  | .silence context host => { past with silenced := past.silenced ++ [(context, host)] }
  | _ => past

-- A studio, with what callers have had disconnected in it so far.
structure Session where
  studio : Studio
  past : Past

namespace Session

def new (rate : Float) : Session := ⟨.new rate, ⟨[], []⟩⟩

def perform (session : Session) (command : Command) : Session :=
  match command.act? session.studio with
  | some act => ⟨act.after session.studio, command.record session.studio session.past⟩
  | none => session

def run (rate : Float) (commands : List Command) : Session := commands.foldl perform (new rate)

theorem run_concat (rate : Float) (commands : List Command) (command : Command) :
    run rate (commands ++ [command]) = (run rate commands).perform command := by
  simp [run]

theorem studio_perform {session : Session} {command : Command} {act : Act Unit}
    (h : command.act? session.studio = some act) :
    (session.perform command).studio = act.after session.studio := by
  rw [perform, h]

-- Between commands nothing is owed.
def moment (session : Session) : Moment := ⟨session.studio.ledger, [], session.past⟩

end Session

end Patchbay
