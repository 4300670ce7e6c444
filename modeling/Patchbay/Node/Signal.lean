import Patchbay.Level
import Patchbay.Node.Compose

namespace Patchbay.Node

-- Plays a buffer; without one it is silent, with a warning.
def playback (context : ContextId) (buffer : Option Buffer) (looping : Bool)
    (detune : Option Drive) : Act Node := do
  if buffer.isNone then Act.warn .silentSource
  ofKind context (.bufferSource buffer looping) [(.detune, detune)]

-- Plays what a slot holds by now.
def samplePlayback (context : ContextId) (sample : Sample) (looping : Bool)
    (detune : Option Drive) : Act Node :=
  playback context sample.buffer looping detune

-- White noise; equal lengths sound alike.
def noise (context : ContextId) (duration : Option Float) (looping : Bool) : Act Node := do
  let rate := (← Act.engine context).rate
  let frames := max (Time.samples (duration.getD 1) rate) 2
  playback context (some (.generate rate [.white] frames frames)) looping none

def gain (context : ContextId) (level : Drive) : Act Node :=
  ofKind context .gain [(.gain, some level)]

def gainOfDecibels (context : ContextId) (decibels : Float) : Act Node :=
  gain context (.fixed (Level.ofDecibels decibels))

def bypass (context : ContextId) : Act Node := gain context (.fixed 1)

-- Two samples that repeat.
def constant (context : ContextId) (value : Float) : Act Node := do
  let rate := (← Act.engine context).rate
  let sample := value.toFloat32
  playback context (some (.mono rate [sample, sample])) true none

-- The signal of a parameter, as audio.
def signal (context : ContextId) (value : Drive) : Act Node := do
  let one ← constant context 1
  inSeries one [← gain context value]

def scaled (factor : Drive) (node : Node) : Act Node := do
  let amount ← gain node.context factor
  inSeries node [amount]

-- Maps 0 to 1 onto the range from `low` to `high`. A node that shapes its input is fed a constant.
def spanning (low high : Float) (node : Node) : Act Node := do
  let context := node.context
  let node ← if 0 < (← get).inputs node then inSeries (← constant context 1) [node] else pure node
  let floor ← constant context low
  inParallel floor [← scaled (.fixed (high - low)) node]

end Patchbay.Node
