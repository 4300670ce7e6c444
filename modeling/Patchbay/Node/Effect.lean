import Patchbay.Node.Tone
import Patchbay.Settings.Reverb

namespace Patchbay.Node

-- In seconds.
def longestDelay : Float := 5

def delay (context : ContextId) (time : Drive) : Act Node :=
  ofKind context (.delay longestDelay) [(.delayTime, some time)]

-- The output comes back to the input, at a given level.
def feedback (amount : Float) (node : Node) : Act Node := do
  let back ← gain node.context (.fixed amount)
  node.connect (.node back)
  back.connect (.node node)
  wrap node [back]

-- A delay whose repeats go through a filter.
def echo (context : ContextId) (time : Drive) (filter : Option Node) (amount : Float) :
    Act Node := do
  let line ← delay context time
  let color ← match filter with
    | some filter => pure filter
    | none => bypass context
  let again ← inSeries color [← gain context (.fixed amount)]
  line.connect (.node again)
  again.connect (.node line)
  wrap line [again]

-- An effect beside the plain signal, which gives way to it when the sum is kept at 1.
def mix (effect : Node) (wet : Option Float) (normalize : Bool) : Act Node := do
  let context := effect.context
  let wet := wet.getD 0.5
  let dry := if normalize then 1 - wet else 1
  let wetPath ← inSeries effect [← gain context (.fixed wet)]
  inParallel (← gain context (.fixed dry)) [wetPath]

def tremolo (context : ContextId) (rate : Float) (waveform : Waveform) : Act Node := do
  gain context (.source (← oscillator context waveform (.fixed rate) none))

-- Without an impulse response it is silent, with a warning.
def convolver (context : ContextId) (impulse : Option Buffer) (normalize : Bool) : Act Node := do
  if impulse.isNone then Act.warn .silentConvolver
  ofKind context (.convolver impulse normalize) []

-- A convolver with decaying noise.
def room (context : ContextId) (duration : Float) (decay : Option Float) (backwards : Bool) :
    Act Node := do
  let rate := (← Act.engine context).rate
  let impulse := Buffer.impulse rate duration decay backwards (Buffer.impulseSeed duration)
  convolver context (some impulse) true

def reverb (context : ContextId) (settings : ReverbSettings) : Act Node := do
  let effect ← room context settings.duration settings.decay settings.reverse
  mix effect (some settings.amount) false

end Patchbay.Node
