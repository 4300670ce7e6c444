import Patchbay.Host.Basic

namespace Patchbay

structure ReverbSettings where
  amount : Float
  duration : Float
  decay : Option Float
  reverse : Bool
  deriving BEq

namespace ReverbSettings

open Json (Source Field Decode)

def standard : ReverbSettings := ⟨0.3, 2, none, false⟩

def fields [Source δ] : List (Field δ ReverbSettings) := [
  .optional "amount" Source.float fun x c => { c with amount := x },
  .optional "duration" Source.float fun x c => { c with duration := x },
  .optional "decay" (Source.option Source.float) fun x c => { c with decay := x },
  .optional "reverse" Source.bool fun x c => { c with reverse := x }]

def read [Source δ] (d : δ) : Decode ReverbSettings :=
  Source.record "struct ReverbConfig" fields standard d

def toJson (c : ReverbSettings) : Json := .object [
  ("amount", .real c.amount), ("duration", .real c.duration),
  ("decay", .ofOption .real c.decay), ("reverse", .bool c.reverse)]

end ReverbSettings

end Patchbay
