import Patchbay.Host.Basic

namespace Patchbay

structure Adsr where
  attack : Float
  decay : Float
  sustain : Float
  release : Float
  deriving BEq

namespace Adsr

open Json (Source Field Decode)

def standard : Adsr := ⟨0.01, 0.1, 0.8, 0.3⟩

def fields [Source δ] : List (Field δ Adsr) := [
  .optional "attack" Source.float fun x c => { c with attack := x },
  .optional "decay" Source.float fun x c => { c with decay := x },
  .optional "sustain" Source.float fun x c => { c with sustain := x },
  .optional "release" Source.float fun x c => { c with release := x }]

def expected : String := "struct AdsrConfig"

def read [Source δ] (d : δ) : Decode Adsr := Source.record expected fields standard d

def toFields (c : Adsr) : List (String × Json) := [
  ("attack", .real c.attack), ("decay", .real c.decay), ("sustain", .real c.sustain),
  ("release", .real c.release)]

def toJson (c : Adsr) : Json := .object c.toFields

def attackContour (c : Adsr) : Except ContourFault Contour :=
  Contour.ofStages [.set 0, .linear 1 c.attack, .exponential c.sustain c.decay]

def releaseContour (c : Adsr) : Except ContourFault Contour :=
  Contour.ofStages [.set c.sustain, .exponential 0 c.release]

end Adsr

end Patchbay
