import Patchbay.Buffer

namespace Patchbay

inductive WavFault where
  | tooShort
  | noRiffTag
  | noWaveTag
  | badFormatSize
  | noChannels
  | bitsExceedSample
  | inconsistent
  | bitsNotBytes
  | noBits
  | unexpectedFormatSize
  | bitsNotPlain
  | extendedSize
  | bitsNotFloat
  | extensibleSize
  | noFormat
  | partialSample
  | partialFrame
  | tooWide
  | unsupported

namespace WavFault

def illFormed (reason : String) : String := "Ill-formed WAVE file: " ++ reason

def message : WavFault → String
  | .tooShort => "Failed to read enough bytes."
  | .noRiffTag => illFormed "no RIFF tag found"
  | .noWaveTag => illFormed "no WAVE tag found"
  | .badFormatSize => illFormed "invalid fmt chunk size"
  | .noChannels => illFormed "file contains zero channels"
  | .bitsExceedSample => illFormed "sample bits exceeds size of sample"
  | .inconsistent => illFormed "inconsistent fmt chunk"
  | .bitsNotBytes => illFormed "bits per sample is not a multiple of 8"
  | .noBits => illFormed "bits per sample is 0"
  | .unexpectedFormatSize => illFormed "unexpected fmt chunk size"
  | .bitsNotPlain => illFormed "bits per sample is not 8 or 16"
  | .extendedSize => illFormed "unexpected WAVEFORMATEX size"
  | .bitsNotFloat => illFormed "bits per sample is not 32"
  | .extensibleSize => illFormed "unexpected WAVEFORMATEXTENSIBLE size"
  | .noFormat => illFormed "missing fmt chunk"
  | .partialSample => illFormed "data chunk length is not a multiple of sample size"
  | .partialFrame => illFormed "invalid data chunk length"
  | .tooWide => "The sample has more bits than the destination type."
  | .unsupported => "The wave format of the file is not supported."

end WavFault

namespace Wav

abbrev Bytes := List UInt8

def littleEndian (bytes : Bytes) : Nat := bytes.foldr (fun b n => b.toNat + 256 * n) 0

-- The number that the low `bits` bits stand for when the highest of them is its sign.
def signed (bits n : Nat) : Int :=
  let span := Nat.pow 2 bits
  let low := n % span
  if 2 * low < span then low else (low : Int) - span

def split (n : Nat) (bytes : Bytes) : Except WavFault (Bytes × Bytes) :=
  let head := bytes.take n
  if head.length < n then .error .tooShort else .ok (head, bytes.drop n)

def number (n : Nat) (bytes : Bytes) : Except WavFault (Nat × Bytes) := do
  let (head, rest) ← split n bytes
  return (littleEndian head, rest)

def tag (text : String) : Bytes := text.toList.map fun c => UInt8.ofNat c.toNat

inductive Encoding where
  | whole
  | float
  deriving DecidableEq

structure Format where
  channels : Nat
  rate : Nat
  bits : Nat
  -- Bytes that hold one sample.
  width : Nat
  encoding : Encoding

def plainGuid : Bytes := [1, 0, 0, 0, 0, 0, 0x10, 0, 0x80, 0, 0, 0xAA, 0, 0x38, 0x9B, 0x71]

def floatGuid : Bytes := [3, 0, 0, 0, 0, 0, 0x10, 0, 0x80, 0, 0, 0xAA, 0, 0x38, 0x9B, 0x71]

def require (condition : Bool) (fault : WavFault) : Except WavFault Unit :=
  if condition then .ok () else .error fault

-- Whole samples. Behind the longer chunks stands an extension that says nothing more.
def plainFormat (size : Nat) (format : Format) (bytes : Bytes) :
    Except WavFault (Format × Bytes) := do
  require (size == 16 || size == 18 || size == 40) .unexpectedFormatSize
  if size = 16 then return (format, bytes)
  require (format.bits == 8 || format.bits == 16 || format.bits == 24) .bitsNotPlain
  let (_, rest) ← split (size - 16) bytes
  return (format, rest)

def floatFormat (size : Nat) (format : Format) (bytes : Bytes) :
    Except WavFault (Format × Bytes) := do
  require (size == 16 || size == 18) .unexpectedFormatSize
  let (extra, rest) ← if size = 18 then number 2 bytes else .ok (0, bytes)
  require (extra == 0) .extendedSize
  require (format.bits == 32) .bitsNotFloat
  return ({ format with encoding := .float }, rest)

-- The extension names the encoding and the bits in use.
def extensibleFormat (size : Nat) (format : Format) (bytes : Bytes) :
    Except WavFault (Format × Bytes) := do
  require (40 ≤ size) .unexpectedFormatSize
  let (extra, rest) ← number 2 bytes
  require (extra == 22) .extensibleSize
  let (valid, rest) ← number 2 rest
  let (_, rest) ← split 4 rest
  let (guid, rest) ← split 16 rest
  require (guid == plainGuid || guid == floatGuid) .unsupported
  let encoding := if guid == plainGuid then Encoding.whole else .float
  return ({ format with encoding, bits := if valid = 0 then format.bits else valid }, rest)

def readFormat (size : Nat) (bytes : Bytes) : Except WavFault (Format × Bytes) := do
  require (16 ≤ size) .badFormatSize
  let (kind, rest) ← number 2 bytes
  let (channels, rest) ← number 2 rest
  let (rate, rest) ← number 4 rest
  let (byteRate, rest) ← number 4 rest
  let (block, rest) ← number 2 rest
  let (bits, rest) ← number 2 rest
  require (channels != 0) .noChannels
  let width := block / channels
  require (width * 8 < 0x10000 && bits ≤ width * 8) .bitsExceedSample
  require (byteRate == block * rate) .inconsistent
  require (bits % 8 == 0) .bitsNotBytes
  require (bits != 0) .noBits
  let format : Format := ⟨channels, rate, bits, width, .whole⟩
  match kind with
  | 1 => plainFormat size format rest
  | 3 => floatFormat size format rest
  | 0xFFFE => extensibleFormat size format rest
  | _ => .error .unsupported

-- Chunks up to the data: the last format chunk counts, a fact chunk is four bytes long whatever it
-- says, and unknown chunks are passed over. Each takes at least the eight bytes of its header.
def findData : Nat → Option Format → Bytes → Except WavFault (Format × Nat × Bytes)
  | 0, _, _ => .error .tooShort
  | fuel + 1, format, bytes => do
    let (kind, rest) ← split 4 bytes
    let (size, rest) ← number 4 rest
    if kind = tag "fmt " then
      let (format, rest) ← readFormat size rest
      findData fuel (some format) rest
    else if kind = tag "fact" then findData fuel format (rest.drop 4)
    else if kind = tag "data" then
      match format with
      | some format => return (format, size, rest)
      | none => .error .noFormat
    else
      let (_, rest) ← split size rest
      findData fuel format rest

-- A whole sample as a part of half the range of its bits.
def scaled (bits : Nat) (x : Int) : Float32 := Float32.ofInt x / Float32.ofNat (Nat.pow 2 (bits - 1))

-- The bytes of one sample as a value between minus one and one.
def sampleOf (format : Format) (bytes : Bytes) : Except WavFault Float32 :=
  let n := littleEndian bytes
  match format.encoding, format.width, format.bits with
  | .whole, 1, 8 => .ok (scaled 8 ((n : Int) - 128))
  | .whole, 2, 16 => .ok (scaled 16 (signed 16 n))
  | .whole, 3, 24 => .ok (scaled 24 (signed 24 n))
  | .whole, 4, 24 => .ok (scaled 24 (signed 24 n))
  | .whole, 4, 32 => .ok (scaled 32 (signed 32 n))
  | .float, 4, 32 => .ok (Float32.ofBits (UInt32.ofNat n))
  | _, width, _ => .error (if 4 < width then .tooWide else .unsupported)

-- Whether samples of this format can be read decides before any byte of them is looked at.
def readable (format : Format) : Except WavFault Unit := do
  let _ ← sampleOf format []

def readSamples (format : Format) : Nat → Bytes → List Float32 → Except WavFault (List Float32)
  | 0, _, done => .ok done.reverse
  | left + 1, bytes, done => do
    readable format
    let (head, rest) ← split format.width bytes
    let x ← sampleOf format head
    readSamples format left rest (x :: done)

-- Every `width`th sample, from the first of each channel on.
def deinterleave (width : Nat) (samples : List Float32) : List (List Float32) :=
  (List.range width).map fun k =>
    samples.zipIdx.filterMap fun (x, i) => if i % width = k then some x else none

-- The rate, and the samples of each channel.
def decode (bytes : Bytes) : Except WavFault (Float × List (List Float32)) := do
  let (riff, rest) ← split 4 bytes
  require (riff == tag "RIFF") .noRiffTag
  let (_, rest) ← split 4 rest
  let (wave, rest) ← split 4 rest
  require (wave == tag "WAVE") .noWaveTag
  let (format, size, rest) ← findData (rest.length + 1) none rest
  require (size % format.width == 0) .partialSample
  let count := size / format.width
  require (count % format.channels == 0) .partialFrame
  let samples ← readSamples format count rest []
  return (Float.ofNat format.rate, deinterleave format.channels samples)

end Wav

end Patchbay
