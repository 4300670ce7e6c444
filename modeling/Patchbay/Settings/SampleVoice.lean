import Patchbay.Settings.Adsr
import Patchbay.Settings.Filter

namespace Patchbay

structure SampleVoice where
  gain : Float
  filter : FilterSettings
  envelope : Adsr
  deriving BEq

namespace SampleVoice

open Json (Source Field Decode)

def standard : SampleVoice :=
  ⟨1, { FilterSettings.standard with frequency := 22000 }, { Adsr.standard with release := 0.4 }⟩

def fields [Source δ] : List (Field δ SampleVoice) := [
  .optional "gain" Source.float fun x c => { c with gain := x },
  .optional "filter" FilterSettings.read fun x c => { c with filter := x }]

-- What the voice does not name is the envelope's, over the envelope's own defaults.
def read [Source δ] (d : δ) : Decode SampleVoice :=
  Source.openRecord "struct SoundfontVoice" fields standard (fun c others => do
    let envelope ← Json.readEntries Adsr.fields [] Adsr.standard (Json.Kept.entries others)
    return { c with envelope }) d

def toJson (c : SampleVoice) : Json :=
  .object ([("gain", .real c.gain), ("filter", c.filter.toJson)] ++ c.envelope.toFields)

end SampleVoice

end Patchbay
