import Patchbay.Buffer
import Patchbay.Contour

namespace Patchbay

-- The host numbers its nodes; number 0 is the final output.
abbrev HostId := Nat

def hostLabel (id : HostId) : String := "#" ++ toString id

inductive Waveform where
  | sine
  | square
  | sawtooth
  | triangle
  deriving DecidableEq, Repr

namespace Waveform

def names : List (String × Waveform) :=
  [("sine", .sine), ("square", .square), ("saw", .sawtooth), ("sawtooth", .sawtooth),
    ("triangle", .triangle)]

def name : Waveform → String
  | .sine => "sine"
  | .square => "square"
  | .sawtooth => "sawtooth"
  | .triangle => "triangle"

def read [Json.Source δ] (d : δ) : Json.Decode Waveform := Json.Source.choice names d

def toJson (w : Waveform) : Json := .string w.name

end Waveform

inductive FilterType where
  | lowpass
  | highpass
  | bandpass
  | lowshelf
  | highshelf
  | peaking
  | notch
  | allpass
  deriving DecidableEq, Repr

namespace FilterType

def names : List (String × FilterType) :=
  [("lowpass", .lowpass), ("highpass", .highpass), ("hipass", .highpass), ("bandpass", .bandpass),
    ("lowshelf", .lowshelf), ("highshelf", .highshelf), ("peaking", .peaking), ("notch", .notch),
    ("allpass", .allpass)]

def name : FilterType → String
  | .lowpass => "lowpass"
  | .highpass => "highpass"
  | .bandpass => "bandpass"
  | .lowshelf => "lowshelf"
  | .highshelf => "highshelf"
  | .peaking => "peaking"
  | .notch => "notch"
  | .allpass => "allpass"

def read [Json.Source δ] (d : δ) : Json.Decode FilterType := Json.Source.choice names d

def toJson (t : FilterType) : Json := .string t.name

end FilterType

-- The control inputs of host nodes.
inductive Param where
  | gain
  | frequency
  | detune
  | q
  | delayTime
  | offset
  | playbackRate
  deriving DecidableEq, Repr

namespace Param

def name : Param → String
  | .gain => "gain"
  | .frequency => "frequency"
  | .detune => "detune"
  | .q => "Q"
  | .delayTime => "delayTime"
  | .offset => "offset"
  | .playbackRate => "playbackRate"

-- In JSON every name starts with a small letter.
def spelling : Param → String
  | .q => "q"
  | p => p.name

def all : List Param :=
  [.gain, .frequency, .detune, .q, .delayTime, .offset, .playbackRate]

def ofName? (name : String) : Option Param := all.find? fun p => p.name == name

def read [Json.Source δ] (d : δ) : Json.Decode Param :=
  Json.Source.choice (all.map fun p => (p.spelling, p)) d

end Param

inductive NodeKind where
  | gain
  | oscillator (waveform : Waveform)
  | biquadFilter (type : FilterType)
  | delay (longest : Float)
  | bufferSource (buffer : Option Buffer) (looping : Bool)
  | constantSource
  | convolver (buffer : Option Buffer) (normalize : Bool)
  | waveShaper (curve : List Float32)

namespace NodeKind

def name : NodeKind → String
  | .gain => "Gain"
  | .oscillator _ => "Oscillator"
  | .biquadFilter _ => "BiquadFilter"
  | .delay _ => "Delay"
  | .bufferSource _ _ => "BufferSource"
  | .constantSource => "ConstantSource"
  | .convolver _ _ => "Convolver"
  | .waveShaper _ => "WaveShaper"

-- Sources are started and stopped, and end.
def isSource : NodeKind → Bool
  | .oscillator _ | .bufferSource _ _ | .constantSource => true
  | _ => false

def params : NodeKind → List Param
  | .gain => [.gain]
  | .oscillator _ => [.frequency, .detune]
  | .biquadFilter _ => [.frequency, .detune, .q, .gain]
  | .delay _ => [.delayTime]
  | .bufferSource _ _ => [.detune, .playbackRate]
  | .constantSource => [.offset]
  | .convolver _ _ | .waveShaper _ => []

def inputs (kind : NodeKind) : Nat := if kind.isSource then 0 else 1

def holdsBuffer : NodeKind → Bool
  | .bufferSource _ _ | .convolver _ _ => true
  | _ => false

def hasBuffer : NodeKind → Bool
  | .bufferSource (some _) _ | .convolver (some _) _ => true
  | _ => false

-- How long it plays by itself.
def naturalLength : NodeKind → Option Float
  | .bufferSource (some buffer) false => some buffer.duration
  | _ => none

end NodeKind

-- Where a connection lands.
inductive Endpoint where
  | node (id : HostId)
  | param (id : HostId) (param : Param)
  deriving DecidableEq, Repr

-- One automation instruction of a parameter.
structure Automation where
  curve : Curve
  value : Float
  time : Float

end Patchbay
