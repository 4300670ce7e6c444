import Patchbay.Audio.Wav

namespace Patchbay.Mp3

abbrev Bytes := List UInt8

-- Four bytes that may head a frame.
structure Header where
  sync : Nat
  second : Nat
  third : Nat
  fourth : Nat

namespace Header

def ofBytes? : Bytes → Option Header
  | a :: b :: c :: d :: _ => some ⟨a.toNat, b.toNat, c.toNat, d.toNat⟩
  | _ => none

-- Layer III is 1 and layer I is 3.
def layer (h : Header) : Nat := h.second / 2 % 4

def isFirstVersion (h : Header) : Bool := h.second / 8 % 2 == 1

def isExtension (h : Header) : Bool := h.second / 16 % 2 == 0

def bitrateIndex (h : Header) : Nat := h.third / 16

def rateIndex (h : Header) : Nat := h.third / 4 % 4

def isValid (h : Header) : Bool :=
  h.sync == 0xFF && (h.second / 16 == 0xF || h.second / 2 == 0x71) && h.layer != 0 &&
    h.bitrateIndex != 15 && h.rateIndex != 3

def isFree (h : Header) : Bool := h.bitrateIndex == 0

-- Of one stream: the version, the layer and the rate agree.
def continues (h next : Header) : Bool :=
  next.isValid && h.second / 2 == next.second / 2 && h.rateIndex == next.rateIndex &&
    h.isFree == next.isFree

-- Half the bit rate in thousands a second, by layer and index.
def halfRates (firstVersion : Bool) (layer : Nat) : List Nat :=
  match firstVersion, layer with
  | true, 1 => [0, 16, 20, 24, 28, 32, 40, 48, 56, 64, 80, 96, 112, 128, 160]
  | true, 2 => [0, 16, 24, 28, 32, 40, 48, 56, 64, 80, 96, 112, 128, 160, 192]
  | true, _ => [0, 16, 32, 48, 64, 80, 96, 112, 128, 144, 160, 176, 192, 208, 224]
  | false, 3 => [0, 16, 24, 28, 32, 40, 48, 56, 64, 72, 80, 88, 96, 112, 128]
  | false, _ => [0, 4, 8, 12, 16, 20, 24, 28, 32, 40, 48, 56, 64, 72, 80]

def kilobits (h : Header) : Nat := 2 * (halfRates h.isFirstVersion h.layer).getD h.bitrateIndex 0

def rate (h : Header) : Nat :=
  let base := [44100, 48000, 32000].getD h.rateIndex 0
  let base := if h.isFirstVersion then base else base / 2
  if h.isExtension then base / 2 else base

-- Samples of each channel in one frame.
def samples (h : Header) : Nat :=
  if h.layer = 3 then 384 else if h.layer = 1 && !h.isFirstVersion then 576 else 1152

def channels (h : Header) : Nat := if h.fourth / 64 == 3 then 1 else 2

-- The length of a frame in bytes; 0 when the header does not say.
def length (h : Header) : Nat :=
  let bytes := h.samples * h.kilobits * 125 / h.rate
  let bytes := if h.layer = 3 then bytes / 4 * 4 else bytes
  let padding := if h.third / 2 % 2 = 1 then (if h.layer = 3 then 4 else 1) else 0
  if bytes = 0 then 0 else bytes + padding

end Header

-- How many following frames are looked at before a header is believed.
def lookahead : Nat := 10

-- Whether frames like the first follow one another from here on, or up to the end.
def agrees (first : Header) : Nat → Nat → Bytes → Bool
  | 0, _, _ => true
  | left + 1, matched, bytes =>
    match Header.ofBytes? bytes with
    | none => false
    | some h =>
      let rest := bytes.drop h.length
      match Header.ofBytes? rest with
      | none => matched != 0
      | some next => first.continues next && agrees first left (matched + 1) rest

-- Whether a stream may begin here: others agree, or one frame is all there is.
def begins (first : Bool) (bytes : Bytes) : Option Header :=
  match Header.ofBytes? bytes with
  | none => none
  | some h =>
    if h.isValid && h.length != 0 &&
        ((h.length ≤ bytes.length && agrees h lookahead 0 bytes) ||
          (first && h.length == bytes.length)) then some h
    else none

-- The first place where a stream begins, with its header.
def search (first : Bool) : Bytes → Option (Header × Bytes)
  | [] => none
  | b :: rest =>
    match begins first (b :: rest) with
    | some h => some (h, b :: rest)
    | none => search false rest

-- A frame right behind the last one is believed when another follows it or nothing does.
def follows (last : Header) (bytes : Bytes) : Option Header :=
  match Header.ofBytes? bytes with
  | none => none
  | some h =>
    if last.continues h && h.length != 0 then
      if h.length == bytes.length then some h
      else
        match Header.ofBytes? (bytes.drop h.length) with
        | some next => if h.continues next then some h else none
        | none => none
    else none

-- The frames of a file, each at least one byte long.
def framesFrom : Nat → Option Header → Bytes → List Header
  | 0, _, _ => []
  | fuel + 1, last, bytes =>
    let found := match last.bind fun last => follows last bytes with
      | some h => some (h, bytes)
      | none => search true bytes
    match found with
    | none => []
    | some (h, bytes) => h :: framesFrom fuel (some h) (bytes.drop h.length)

def frames (bytes : Bytes) : List Header := framesFrom (bytes.length + 1) none bytes

-- None when there are no frames. The first one decides the rate and the number of channels, and all of
-- them are taken to be silent.
def decode? (bytes : Bytes) : Option (Float × List (List Float32)) :=
  match frames bytes with
  | [] => none
  | first :: rest =>
    let silence (h : Header) : List (List Float32) :=
      Wav.deinterleave first.channels (List.replicate (h.samples * h.channels) 0.0)
    let join (channels more : List (List Float32)) : List (List Float32) :=
      List.zipWith (· ++ ·) channels more
    some (Float.ofNat first.rate,
      rest.foldl (fun channels h => join channels (silence h)) (silence first))

end Patchbay.Mp3
