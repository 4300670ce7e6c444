import Patchbay.Patch.Build

namespace Patchbay

def Cutoff.hertzFor (frequency : Float) : Cutoff → Float
  | .hertz x => x
  | .follow => frequency

-- None without a cutoff. `frequency` is the one that is played.
def SweptFilter.build (filter : SweptFilter) (context : ContextId) (frequency : Float) :
    Act (Option Node) := do
  match filter.frequency.map (Cutoff.hertzFor frequency) with
  | none => return none
  | some cutoff =>
    let drive ← match filter.envelope with
      | some envelope => Drive.source <$> Node.sweep context cutoff filter.octaves envelope
      | none => pure (Drive.fixed cutoff)
    Node.filter context filter.type drive (filter.q.map .fixed) none

namespace Node

-- An oscillator or another source, its envelope, its filter, and a gain unless that is 1.
def subtractive (context : ContextId) (settings : SubtractiveSettings) (source : Option Node) :
    Act Node := do
  let source ← match source with
    | some source => pure source
    | none => oscillator context settings.waveform (.fixed settings.frequency) none
  let envelope ← adsr context settings.envelope
  let filter ← settings.filter.build context settings.frequency
  let level ← if settings.gain != 1 then some <$> gain context (.fixed settings.gain) else pure none
  inSeries source ([envelope] ++ filter.toList ++ level.toList)

-- A sine for each drawbar.
def organ (context : ContextId) (registration : Registration) (frequency : Float) : Act Node :=
  bank context Registration.ratios ⟨frequency, registration.gains, [.sine], true⟩

def pluck (context : ContextId) (frequency : Float) : Act Node := do
  let tone ← sine context (.fixed frequency)
  inSeries tone [← percussive context none (some 0.5)]

-- A note without a sample is played all the same, with a warning.
def sampled (context : ContextId) (font : Soundfont) (voice : SampleVoice) (note : Nat) :
    Act Node := do
  let buffer := font.buffer? note
  if buffer.isNone then Act.warn (.missingSample font.name note)
  let source ← playback context buffer false none
  let filter ← filterOf context voice.filter
  let envelope ← adsr context voice.envelope
  inSeries source [filter, envelope, ← gain context (.fixed voice.gain)]

end Node

def Recipe.build (recipe : Recipe) (context : ContextId) (value : Float) : Act Node :=
  match recipe with
  | .sine => Node.sine context (.fixed value)
  | .pluck => Node.pluck context value
  | .adsr settings => do
    let tone ← Node.sine context (.fixed value)
    Node.inSeries tone [← Node.adsr context settings]
  | .subtractive settings => Node.subtractive context { settings with frequency := value } none
  | .organ registration => Node.organ context registration value
  | .patch source => Patch.build context source
  | .sampler font voice => Node.sampled context font voice value.toUInt8.toNat

end Patchbay
