import Patchbay.Settings.Adsr

namespace Patchbay

open Json (Source Field Decode)

inductive Cutoff where
  | hertz (x : Float)
  -- The frequency that is played.
  | follow
  deriving BEq

namespace Cutoff

def followNames : List (String × Unit) := [("follow", ())]

-- A number is tried first, then the word; an object may hold the word as its only field.
def ofJson : Json → Decode Cutoff
  | .number n => pure (.hertz n.toFloat)
  | json => do
    let word : Decode Unit := match json with
      | .string name => Json.chooseName followNames name
      | .object [(name, .null)] => Json.chooseName followNames name
      | json => Json.mismatch json "string or map"
    match ← word.attempt with
    | some () => return .follow
    | none => Decode.fail (.noMatch "Cutoff")

def read [Source δ] (d : δ) : Decode Cutoff := do ofJson (← Source.keep d)

def toJson : Cutoff → Json
  | .hertz x => .real x
  | .follow => .string "follow"

end Cutoff

structure SweptFilter where
  type : FilterType
  -- Without a cutoff there is no filter.
  frequency : Option Cutoff
  q : Option Float
  -- The cutoff sweeps up `octaves` octaves along this envelope.
  envelope : Option Adsr
  octaves : Float
  deriving BEq

namespace SweptFilter

def standard : SweptFilter := ⟨.lowpass, none, none, none, 2⟩

def fields [Source δ] : List (Field δ SweptFilter) := [
  .optional "type" FilterType.read fun x c => { c with type := x },
  .optional "frequency" (Source.option Cutoff.read) fun x c => { c with frequency := x },
  (.optional "Q" (Source.option Source.float) fun x c => { c with q := x } : Field δ _).also "q",
  .optional "envelope" (Source.option Adsr.read) fun x c => { c with envelope := x },
  .optional "octaves" Source.float fun x c => { c with octaves := x }]

def read [Source δ] (d : δ) : Decode SweptFilter :=
  Source.record "struct SubtractiveFilter" fields standard d

def toJson (c : SweptFilter) : Json := .object [
  ("type", c.type.toJson), ("frequency", .ofOption Cutoff.toJson c.frequency),
  ("Q", .ofOption .real c.q), ("envelope", .ofOption Adsr.toJson c.envelope),
  ("octaves", .real c.octaves)]

end SweptFilter

structure SubtractiveSettings where
  frequency : Float
  waveform : Waveform
  envelope : Adsr
  filter : SweptFilter
  gain : Float
  deriving BEq

namespace SubtractiveSettings

def standard : SubtractiveSettings := ⟨440, .sawtooth, ⟨0.01, 0.1, 0.8, 1⟩, .standard, 1⟩

def fields [Source δ] : List (Field δ SubtractiveSettings) := [
  .optional "frequency" Source.float fun x c => { c with frequency := x },
  .optional "type" Waveform.read fun x c => { c with waveform := x },
  .optional "adsr" Adsr.read fun x c => { c with envelope := x },
  .optional "filter" SweptFilter.read fun x c => { c with filter := x },
  .optional "gain" Source.float fun x c => { c with gain := x }]

def read [Source δ] (d : δ) : Decode SubtractiveSettings :=
  Source.record "struct SubtractiveConfig" fields standard d

def toJson (c : SubtractiveSettings) : Json := .object [
  ("frequency", .real c.frequency), ("type", c.waveform.toJson), ("adsr", c.envelope.toJson),
  ("filter", c.filter.toJson), ("gain", .real c.gain)]

end SubtractiveSettings

end Patchbay
