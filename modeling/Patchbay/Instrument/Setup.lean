import Patchbay.Studio.Basic
import Patchbay.Node.Compose

namespace Patchbay.Instrument

def add (inst : Instrument) : Act InstrumentId :=
  modifyGet fun studio =>
    (studio.instruments.size, { studio with instruments := studio.instruments.push inst })

-- Plays to the final output.
def master (context : ContextId) : Act Instrument := do
  return { new context with destination := some (← Node.destination context) }

-- Another instrument that plays where this one does.
def child (inst : Instrument) (synth : Option Recipe) (maxVoices : Nat) : Instrument :=
  { new inst.context with synth, destination := inst.destination, maxVoices }

-- Plays the notes of a soundfont, to the final output unless told otherwise.
def sampler (context : ContextId) (font : Soundfont) (voice : SampleVoice)
    (destination : Option Node) : Act Instrument := do
  let base ← match destination with
    | some node => pure { new context with destination := some node }
    | none => master context
  return { base with synth := some (.sampler font voice) }

end Patchbay.Instrument
