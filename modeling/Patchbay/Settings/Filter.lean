import Patchbay.Host.Basic

namespace Patchbay

structure FilterSettings where
  type : FilterType
  frequency : Float
  q : Option Float
  detune : Option Float
  deriving BEq

namespace FilterSettings

open Json (Source Field Decode)

def standard : FilterSettings := ⟨.lowpass, 350, none, none⟩

def fields [Source δ] : List (Field δ FilterSettings) := [
  .optional "type" FilterType.read fun x c => { c with type := x },
  .optional "frequency" Source.float fun x c => { c with frequency := x },
  (.optional "Q" (Source.option Source.float) fun x c => { c with q := x } : Field δ _).also "q",
  .optional "detune" (Source.option Source.float) fun x c => { c with detune := x }]

def read [Source δ] (d : δ) : Decode FilterSettings :=
  Source.record "struct FilterConfig" fields standard d

-- Absent values are left out.
def optionalField (name : String) (x : Option Float) : List (String × Json) :=
  (x.map fun x => (name, Json.real x)).toList

def toJson (c : FilterSettings) : Json :=
  .object ([("type", c.type.toJson), ("frequency", .real c.frequency)] ++
    optionalField "Q" c.q ++ optionalField "detune" c.detune)

end FilterSettings

end Patchbay
