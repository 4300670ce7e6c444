import Patchbay.Noise
import Patchbay.Time
import Patchbay.Json.Decode

namespace Patchbay

structure Buffer where
  rate : Float
  channels : List (List Float32)

namespace Buffer

def frames (buffer : Buffer) : Nat := (buffer.channels.head?.getD []).length

def isEmpty (buffer : Buffer) : Bool := buffer.frames == 0

-- Playback length in seconds; a rate that is not positive plays nothing.
def duration (buffer : Buffer) : Float :=
  if 0 < buffer.rate then Float.ofNat buffer.frames / buffer.rate else 0

def channel? (buffer : Buffer) (i : Nat) : Option (List Float32) := buffer.channels[i]?

-- None when the channels differ in length.
def ofChannels? (rate : Float) (channels : List (List Float32)) : Option Buffer :=
  match channels with
  | [] => some ⟨rate, []⟩
  | first :: _ =>
    if channels.all fun c => c.length == first.length then some ⟨rate, channels⟩ else none

def mono (rate : Float) (samples : List Float32) : Buffer := ⟨rate, [samples]⟩

end Buffer

inductive Generator where
  | silence
  -- One full-scale sample at the start.
  | pulse
  | white
  deriving DecidableEq, Repr

namespace Generator

def names : List (String × Generator) :=
  [("silence", .silence), ("pulse", .pulse), ("white", .white)]

def name : Generator → String
  | .silence => "silence"
  | .pulse => "pulse"
  | .white => "white"

def read [Json.Source δ] (d : δ) : Json.Decode Generator := Json.Source.choice names d

def sample (noise : Noise) (i : Nat) : Generator → Float32 × Noise
  | .silence => (0.0, noise)
  | .pulse => (if i = 0 then 1.0 else 0.0, noise)
  | .white => noise.sample

-- The samples are gathered with the last one first.
def samplesFrom (g : Generator) : Nat → Nat → Noise → List Float32 → List Float32 × Noise
  | 0, _, noise, done => (done.reverse, noise)
  | left + 1, i, noise, done =>
    let (x, noise) := g.sample noise i
    samplesFrom g left (i + 1) noise (x :: done)

-- One channel for each generator; all draw from the same noise in turn.
def channels (frames : Nat) : List Generator → Noise → List (List Float32)
  | [], _ => []
  | g :: rest, noise =>
    let (samples, noise) := g.samplesFrom frames 0 noise []
    samples :: channels frames rest noise

end Generator

namespace Buffer

def generate (rate : Float) (generators : List Generator) (frames seed : Nat) : Buffer :=
  ⟨rate, Generator.channels frames generators (Noise.ofSeed (UInt64.ofNat seed))⟩

-- The least decay that differs from none.
def leastDecay : Float := Float.ofBits 0x3CB0000000000000

def fade (frames : Nat) (decay : Float) (samples : List Float32) : List Float32 :=
  samples.mapIdx fun i x =>
    x * ((1.0 - Float.ofNat i / Float.ofNat frames).pow decay).toFloat32

-- Two channels of noise that dies away, for use as a reverberation.
def impulse (rate duration : Float) (decay : Option Float) (backwards : Bool) (seed : Nat) :
    Buffer :=
  let frames := max (Time.samples duration rate) 1
  let decay := Time.later (decay.getD (duration / 1.2)) leastDecay
  let noise := generate rate [.white, .white] frames seed
  let shape (samples : List Float32) : List Float32 :=
    let faded := fade frames decay samples
    if backwards then faded.reverse else faded
  { noise with channels := noise.channels.map shape }

-- Reverberations of one length sound alike: the milliseconds are the seed.
def impulseSeed (duration : Float) : Nat := (duration * 1000.0).toUInt64.toNat

end Buffer

-- A slot that is filled once its audio arrives.
structure Sample where
  buffer : Option Buffer

namespace Sample

def empty : Sample := ⟨none⟩

def fill (_ : Sample) (buffer : Buffer) : Sample := ⟨some buffer⟩

def ready (buffer : Buffer) : Sample := empty.fill buffer

def isReady (sample : Sample) : Bool := sample.buffer.isSome

end Sample

end Patchbay
