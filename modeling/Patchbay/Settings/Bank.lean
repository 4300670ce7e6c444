import Patchbay.Host.Basic

namespace Patchbay

structure BankSettings where
  frequency : Float
  gains : List Float
  waveforms : List Waveform
  normalize : Bool
  deriving BEq

namespace BankSettings

open Json (Source Field Decode)

def standard : BankSettings := ⟨1, [1], [.sine], true⟩

def fields [Source δ] : List (Field δ BankSettings) := [
  .optional "frequency" Source.float fun x c => { c with frequency := x },
  .optional "gains" (Source.list Source.float) fun x c => { c with gains := x },
  .optional "waveforms" (Source.list Waveform.read) fun x c => { c with waveforms := x },
  .optional "normalize" Source.bool fun x c => { c with normalize := x }]

def read [Source δ] (d : δ) : Decode BankSettings :=
  Source.record "struct OscBankConfig" fields standard d

def toJson (c : BankSettings) : Json := .object [
  ("frequency", .real c.frequency), ("gains", .array (c.gains.map .real)),
  ("waveforms", .array (c.waveforms.map Waveform.toJson)), ("normalize", .bool c.normalize)]

end BankSettings

end Patchbay
