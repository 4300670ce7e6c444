import Mathlib.Algebra.Group.Nat.Defs
import Mathlib.Data.List.FinRange
import Patchbay.Audio.Decode

namespace Patchbay.Wav

-- As many bytes of a number as asked for, the lowest first.
def lowFirst : Nat → Nat → Bytes
  | 0, _ => []
  | width + 1, n => UInt8.ofNat n :: lowFirst width (n / 256)

@[simp] theorem length_lowFirst (width n : Nat) : (lowFirst width n).length = width := by
  induction width generalizing n with
  | zero => rfl
  | succ width ih => rw [lowFirst, List.length_cons, ih]

theorem littleEndian_lowFirst {width n : Nat} (h : n < 256 ^ width) :
    littleEndian (lowFirst width n) = n := by
  induction width generalizing n with
  | zero =>
      obtain rfl : n = 0 := by simpa using h
      rfl
  | succ width ih =>
      have hhigh : n / 256 < 256 ^ width := Nat.div_lt_of_lt_mul (by rwa [Nat.pow_succ'] at h)
      have hrest : littleEndian (lowFirst width (n / 256)) = n / 256 := ih hhigh
      have hlow : (UInt8.ofNat n).toNat = n % 256 := by simp
      change (UInt8.ofNat n).toNat + 256 * littleEndian (lowFirst width (n / 256)) = n
      rw [hrest, hlow]
      omega

theorem split_append {n : Nat} {bytes : Bytes} (h : bytes.length = n) (rest : Bytes) :
    split n (bytes ++ rest) = .ok (bytes, rest) := by
  subst h
  simp [split]

theorem number_lowFirst (width : Nat) {n : Nat} (h : n < 256 ^ width) (rest : Bytes) :
    number width (lowFirst width n ++ rest) = .ok (n, rest) := by
  rw [number, split_append (length_lowFirst width n)]
  change Except.ok (littleEndian (lowFirst width n), rest) = _
  rw [littleEndian_lowFirst h]

-- A signed sample of so many bits for every channel of every frame.
structure Recording where
  bits : Nat
  channels : Nat
  rate : Nat
  frames : Nat
  sample : Fin frames → Fin channels → BitVec bits

structure Chunk where
  name : Bytes
  body : Bytes

def Chunk.bytes (chunk : Chunk) : Bytes :=
  chunk.name ++ (lowFirst 4 chunk.body.length ++ chunk.body)

-- A chunk that says nothing of the samples.
structure Chunk.Other (chunk : Chunk) : Prop where
  name : chunk.name.length = 4
  body : chunk.body.length < 2 ^ 32
  format : chunk.name ≠ tag "fmt "
  fact : chunk.name ≠ tag "fact"
  data : chunk.name ≠ tag "data"

-- Samples of one byte are stored without a sign.
def stored {bits : Nat} (x : BitVec bits) : Nat :=
  if bits = 8 then (x.toInt + 128).toNat else x.toNat

namespace Recording

variable (r : Recording)

-- Bytes of one sample, of one frame, and of one second.
def width : Nat := r.bits / 8

def block : Nat := r.channels * r.width

def byteRate : Nat := r.block * r.rate

-- The fields of the header can hold it.
structure Fits : Prop where
  bits : r.bits ∈ [8, 16, 24, 32]
  channels : 1 ≤ r.channels
  block : r.block < 2 ^ 16
  byteRate : r.byteRate < 2 ^ 32
  size : r.frames * r.block < 2 ^ 32

def format : Chunk where
  name := tag "fmt "
  body := lowFirst 2 1 ++ (lowFirst 2 r.channels ++ (lowFirst 4 r.rate ++
    (lowFirst 4 r.byteRate ++ (lowFirst 2 r.block ++ lowFirst 2 r.bits))))

-- Frame after frame, and in each the channels in order.
def samples : List (BitVec r.bits) :=
  (List.ofFn fun f => List.ofFn fun k => r.sample f k).flatten

def data : Chunk where
  name := tag "data"
  body := r.samples.flatMap fun x => lowFirst r.width (stored x)

def file (others : List Chunk) : Bytes :=
  let body := tag "WAVE" ++ (r.format.bytes ++ (others.flatMap Chunk.bytes ++ r.data.bytes))
  tag "RIFF" ++ (lowFirst 4 body.length ++ body)

-- What is to be heard of it.
def buffer : Buffer where
  rate := Float.ofNat r.rate
  channels := List.ofFn fun k => List.ofFn fun f => scaled r.bits (r.sample f k).toInt

variable {r}

theorem Fits.width_cases (h : r.Fits) :
    r.bits = 8 * r.width ∧ (r.width = 1 ∨ r.width = 2 ∨ r.width = 3 ∨ r.width = 4) := by
  have hbits : r.bits = 8 ∨ r.bits = 16 ∨ r.bits = 24 ∨ r.bits = 32 := by simpa using h.bits
  have hwidth : r.width = r.bits / 8 := rfl
  omega

theorem Fits.width_pos (h : r.Fits) : 0 < r.width := by
  have := h.width_cases
  omega

end Recording

def Recording.heading (r : Recording) : Format := ⟨r.channels, r.rate, r.bits, r.width, .whole⟩

theorem length_format (r : Recording) : r.format.body.length = 16 := by
  simp [Recording.format]

theorem require_true {condition : Bool} (h : condition = true) (fault : WavFault) :
    require condition fault = .ok () := by
  rw [require, if_pos h]

theorem readFormat_format {r : Recording} (h : r.Fits) (rest : Bytes) :
    readFormat 16 (r.format.body ++ rest) = .ok (r.heading, rest) := by
  have hwidth := h.width_pos
  have hchannels := h.channels
  have hblock := h.block
  have hbyteRate := h.byteRate
  obtain ⟨hbits, hcases⟩ := h.width_cases
  -- The fields are large enough for the smaller numbers, too.
  have hfew : r.channels ≤ r.block := Nat.le_mul_of_pos_right _ hwidth
  have hslow : r.rate ≤ r.byteRate := Nat.le_mul_of_pos_left _ (Nat.mul_pos hchannels hwidth)
  have hdiv : r.block / r.channels = r.width := Nat.mul_div_cancel_left _ hchannels
  have hkind := number_lowFirst 2 (n := 1) (by decide)
  have hchannels' := number_lowFirst 2 (n := r.channels) (by omega)
  have hrate' := number_lowFirst 4 (n := r.rate) (by omega)
  have hbyteRate' := number_lowFirst 4 (n := r.byteRate) (by omega)
  have hblock' := number_lowFirst 2 (n := r.block) (by omega)
  have hbits' := number_lowFirst 2 (n := r.bits) (by omega)
  simp only [readFormat, Recording.format, List.append_assoc, hkind, hchannels', hrate', hbyteRate',
    hblock', hbits', bind, Except.bind, hdiv]
  have hsome : require (r.channels != 0) .noChannels = .ok () := require_true (by simp; omega) _
  have hhold : require (r.width * 8 < 0x10000 && r.bits ≤ r.width * 8) .bitsExceedSample = .ok () :=
    require_true (by simp; omega) _
  have hspeed : require (r.byteRate == r.block * r.rate) .inconsistent = .ok () :=
    require_true (beq_self_eq_true _) _
  have hwhole : require (r.bits % 8 == 0) .bitsNotBytes = .ok () := require_true (by simp; omega) _
  have hbits0 : require (r.bits != 0) .noBits = .ok () := require_true (by simp; omega) _
  simp only [hsome, hhold, hspeed, hwhole, hbits0]
  rfl

theorem length_bytes (chunk : Chunk) :
    chunk.bytes.length = chunk.name.length + (4 + chunk.body.length) := by
  simp [Chunk.bytes]

-- The name and the length of a chunk.
theorem split_name (chunk : Chunk) (h : chunk.name.length = 4) (rest : Bytes) :
    split 4 (chunk.bytes ++ rest) =
      .ok (chunk.name, lowFirst 4 chunk.body.length ++ (chunk.body ++ rest)) := by
  rw [Chunk.bytes, List.append_assoc, List.append_assoc]
  exact split_append h _

theorem findData_format {r : Recording} (h : r.Fits) (fuel : Nat) (rest : Bytes) :
    findData (fuel + 1) none (r.format.bytes ++ rest) = findData fuel (some r.heading) rest := by
  have hsize := number_lowFirst 4 (n := r.format.body.length)
    (by rw [length_format]; decide)
  rw [findData, split_name r.format rfl]
  simp only [bind, Except.bind, hsize]
  rw [if_pos (show r.format.name = tag "fmt " from rfl), length_format, readFormat_format h]

theorem findData_other {chunk : Chunk} (h : chunk.Other) (fuel : Nat) (format : Option Format)
    (rest : Bytes) :
    findData (fuel + 1) format (chunk.bytes ++ rest) = findData fuel format rest := by
  have hsize := number_lowFirst 4 (n := chunk.body.length) h.body
  rw [findData, split_name chunk h.name]
  simp only [bind, Except.bind, hsize]
  rw [if_neg h.format, if_neg h.fact, if_neg h.data, split_append rfl]

theorem findData_data {chunk : Chunk} (hname : chunk.name = tag "data")
    (hbody : chunk.body.length < 2 ^ 32) (fuel : Nat) (format : Format) (rest : Bytes) :
    findData (fuel + 1) (some format) (chunk.bytes ++ rest) =
      .ok (format, chunk.body.length, chunk.body ++ rest) := by
  have hsize := number_lowFirst 4 (n := chunk.body.length) hbody
  have hlength : chunk.name.length = 4 := by
    rw [hname]
    rfl
  rw [findData, split_name chunk hlength]
  simp only [bind, Except.bind, hsize, hname]
  rfl

theorem findData_others {others : List Chunk} (hothers : ∀ chunk ∈ others, chunk.Other) {data : Chunk}
    (hname : data.name = tag "data") (hbody : data.body.length < 2 ^ 32) (format : Format)
    (rest : Bytes) {fuel : Nat} (hfuel : others.length < fuel) :
    findData fuel (some format) (others.flatMap Chunk.bytes ++ (data.bytes ++ rest)) =
      .ok (format, data.body.length, data.body ++ rest) := by
  induction others generalizing fuel with
  | nil =>
      obtain ⟨fuel, rfl⟩ : ∃ k, fuel = k + 1 := ⟨fuel - 1, by simp at hfuel; omega⟩
      exact findData_data hname hbody fuel format rest
  | cons chunk more ih =>
      rw [List.length_cons] at hfuel
      obtain ⟨fuel, rfl⟩ : ∃ k, fuel = k + 1 := ⟨fuel - 1, by omega⟩
      rw [List.flatMap_cons, List.append_assoc, findData_other (hothers chunk List.mem_cons_self)]
      exact ih (fun other hother => hothers other (List.mem_cons_of_mem _ hother)) (by omega)

theorem signed_toNat {bits : Nat} (x : BitVec bits) : signed bits x.toNat = x.toInt := by
  have hlt : x.toNat < Nat.pow 2 bits := x.isLt
  rw [signed, Nat.mod_eq_of_lt hlt, BitVec.toInt_eq_toNat_cond]
  push_cast
  rfl

theorem stored_lt {bits : Nat} (x : BitVec bits) : stored x < 2 ^ bits := by
  unfold stored
  split
  case isTrue h =>
      subst h
      have := x.toInt_lt
      omega
  case isFalse => exact x.isLt

theorem sampleOf_stored {bits : Nat} (hbits : bits ∈ [8, 16, 24, 32]) (channels rate : Nat)
    (x : BitVec bits) :
    sampleOf ⟨channels, rate, bits, bits / 8, .whole⟩ (lowFirst (bits / 8) (stored x)) =
      .ok (scaled bits x.toInt) := by
  have hread : littleEndian (lowFirst (bits / 8) (stored x)) = stored x := by
    apply littleEndian_lowFirst
    have hwide : 2 ^ bits = 256 ^ (bits / 8) := by
      have h : bits = 8 ∨ bits = 16 ∨ bits = 24 ∨ bits = 32 := by simpa using hbits
      rcases h with rfl | rfl | rfl | rfl <;> rfl
    exact hwide ▸ stored_lt x
  rw [sampleOf, hread]
  have h : bits = 8 ∨ bits = 16 ∨ bits = 24 ∨ bits = 32 := by simpa using hbits
  rcases h with rfl | rfl | rfl | rfl
  · have hsign : ((stored x : Nat) : Int) - 128 = x.toInt := by
      have := x.le_toInt
      simp only [stored, if_true]
      omega
    change Except.ok (scaled 8 ((stored x : Nat) - 128)) = _
    rw [hsign]
  · exact congrArg (fun n => Except.ok (scaled 16 n)) (signed_toNat x)
  · exact congrArg (fun n => Except.ok (scaled 24 n)) (signed_toNat x)
  · exact congrArg (fun n => Except.ok (scaled 32 n)) (signed_toNat x)

theorem readable_whole {bits : Nat} (hbits : bits ∈ [8, 16, 24, 32]) (channels rate : Nat) :
    readable ⟨channels, rate, bits, bits / 8, .whole⟩ = .ok () := by
  have h : bits = 8 ∨ bits = 16 ∨ bits = 24 ∨ bits = 32 := by simpa using hbits
  rcases h with rfl | rfl | rfl | rfl <;> rfl

theorem readSamples_stored {r : Recording} (h : r.Fits) (xs : List (BitVec r.bits)) (rest : Bytes)
    (done : List Float32) :
    readSamples r.heading xs.length
        ((xs.flatMap fun x => lowFirst r.width (stored x)) ++ rest) done =
      .ok (done.reverse ++ xs.map fun x => scaled r.bits x.toInt) := by
  have hreadable : readable r.heading = .ok () := readable_whole h.bits r.channels r.rate
  have hsample (x : BitVec r.bits) : sampleOf r.heading (lowFirst r.width (stored x)) =
      .ok (scaled r.bits x.toInt) := sampleOf_stored h.bits r.channels r.rate x
  have hsplit (x : BitVec r.bits) (rest : Bytes) :
      split r.heading.width (lowFirst r.width (stored x) ++ rest) =
        .ok (lowFirst r.width (stored x), rest) := split_append (length_lowFirst _ _) rest
  induction xs generalizing done with
  | nil => simp [readSamples]
  | cons x more ih =>
      rw [List.length_cons, readSamples, List.flatMap_cons, List.append_assoc]
      simp only [bind, Except.bind, hreadable, hsplit, hsample]
      rw [ih, List.reverse_cons, List.map_cons, List.append_assoc]
      rfl

-- What the `k`th channel takes of samples that are numbered from `start` on.
def taken (width k start : Nat) (samples : List Float32) : List Float32 :=
  (samples.zipIdx start).filterMap fun (x, i) => if i % width = k then some x else none

theorem taken_append (width k start : Nat) (first rest : List Float32) :
    taken width k start (first ++ rest) =
      taken width k start first ++ taken width k (start + first.length) rest := by
  rw [taken, List.zipIdx_append, List.filterMap_append]
  rfl

-- Part of a frame, of which `j` samples stand before it.
theorem taken_part {width k j : Nat} (hk : k < width) {part : List Float32}
    (hpart : j + part.length ≤ width) (frame : Nat) :
    taken width k (frame * width + j) part = if j ≤ k then part[k - j]?.toList else [] := by
  induction part generalizing j with
  | nil => simp [taken]
  | cons x more ih =>
      rw [List.length_cons] at hpart
      have hmore := ih (j := j + 1) (by omega)
      have hplace : (frame * width + j) % width = j := by
        rw [Nat.mul_add_mod', Nat.mod_eq_of_lt (by omega)]
      have hstep : taken width k (frame * width + j) (x :: more) =
          (if j = k then [x] else []) ++ taken width k (frame * width + (j + 1)) more := by
        simp only [taken, List.zipIdx_cons, List.filterMap_cons, hplace]
        split <;> simp_all [Nat.add_assoc]
      rw [hstep, hmore]
      rcases Nat.lt_trichotomy j k with hlt | rfl | hgt
      · have hnext : k - j = k - (j + 1) + 1 := by omega
        rw [if_neg (by omega), if_pos (by omega), if_pos (by omega), hnext, List.getElem?_cons_succ]
        rfl
      · rw [if_pos rfl, if_neg (by omega), if_pos (by omega)]
        simp
      · rw [if_neg (by omega), if_neg (by omega), if_neg (by omega)]
        rfl

theorem taken_frames {width k : Nat} (hk : k < width) {frames : List (List Float32)}
    (h : ∀ frame ∈ frames, frame.length = width) (before : Nat) :
    taken width k (before * width) frames.flatten = frames.flatMap (·[k]?.toList) := by
  induction frames generalizing before with
  | nil => rfl
  | cons frame more ih =>
      have hlength := h frame List.mem_cons_self
      have hfits : 0 + frame.length ≤ width := by omega
      have hfirst := taken_part hk hfits before
      have hmore := ih (fun other hother => h other (List.mem_cons_of_mem _ hother)) (before + 1)
      rw [List.flatten_cons, taken_append, hlength, ← Nat.succ_mul, hmore, List.flatMap_cons]
      exact congrArg (· ++ _) hfirst

theorem deinterleave_frames {n width : Nat} (level : Fin n → Fin width → Float32) :
    deinterleave width (List.ofFn fun f => List.ofFn fun k => level f k).flatten =
      List.ofFn fun k => List.ofFn fun f => level f k := by
  have hframes : ∀ frame ∈ List.ofFn fun f => List.ofFn fun k => level f k,
      frame.length = width := by
    intro frame hframe
    obtain ⟨f, rfl⟩ := (List.mem_ofFn' _ _).1 hframe
    exact List.length_ofFn
  have hchannel (k : Fin width) : taken width k 0
      (List.ofFn fun f => List.ofFn fun k => level f k).flatten = List.ofFn fun f => level f k := by
    have htaken := taken_frames k.isLt hframes 0
    rw [Nat.zero_mul] at htaken
    rw [htaken, List.ofFn_eq_map, List.ofFn_eq_map, List.flatMap_map, List.map_eq_flatMap]
    simp
  have hrange : List.range width = (List.finRange width).map Fin.val := by simp
  calc deinterleave width (List.ofFn fun f => List.ofFn fun k => level f k).flatten
    _ = (List.finRange width).map fun k : Fin width => taken width k.val 0
          (List.ofFn fun f => List.ofFn fun k => level f k).flatten := by
        rw [deinterleave, hrange, List.map_map]
        rfl
    _ = (List.finRange width).map fun k => List.ofFn fun f => level f k :=
        List.map_congr_left fun k _ => hchannel k
    _ = List.ofFn fun k => List.ofFn fun f => level f k := (List.ofFn_eq_map ..).symm

theorem length_samples (r : Recording) : r.samples.length = r.frames * r.channels := by
  simp [Recording.samples, List.ofFn_eq_map, Function.comp_def]

theorem length_data (r : Recording) : r.data.body.length = r.frames * r.block := by
  simp only [Recording.data, List.length_flatMap, length_lowFirst, List.map_const', Recording.block,
    List.sum_replicate_nat, length_samples, Nat.mul_assoc]

theorem length_le_bytes (others : List Chunk) :
    others.length ≤ (others.flatMap Chunk.bytes).length := by
  induction others with
  | nil => simp
  | cons chunk more ih =>
      rw [List.flatMap_cons, List.length_append, List.length_cons, length_bytes]
      omega

theorem decode_file {r : Recording} (h : r.Fits) {others : List Chunk}
    (hothers : ∀ chunk ∈ others, chunk.Other) (rest : Bytes) :
    decode (r.file others ++ rest) = .ok (r.buffer.rate, r.buffer.channels) := by
  have hwidth := h.width_pos
  have htag {text : String} (h : (tag text).length = 4) (rest : Bytes) :
      split 4 (tag text ++ rest) = .ok (tag text, rest) := split_append h rest
  have hriff := htag (show (tag "RIFF").length = 4 from rfl)
  have hwave := htag (show (tag "WAVE").length = 4 from rfl)
  have hlength (n : Nat) := split_append (length_lowFirst 4 n)
  have htags (text : String) (fault : WavFault) : require (tag text == tag text) fault = .ok () :=
    require_true (beq_self_eq_true _) fault
  let chunks := r.format.bytes ++ (others.flatMap Chunk.bytes ++ (r.data.bytes ++ rest))
  have hfuel : others.length < chunks.length := by
    have hmany := length_le_bytes others
    have hdata := length_bytes r.data
    simp only [chunks, List.length_append]
    omega
  have hdata : findData (chunks.length + 1) none chunks =
      .ok (r.heading, r.frames * r.block, r.data.body ++ rest) := by
    have hsize := length_data r
    rw [findData_format h, findData_others hothers rfl (hsize ▸ h.size) _ _ hfuel, hsize]
  have hcount : r.frames * r.block / r.width = r.samples.length := by
    rw [length_samples, Recording.block, ← Nat.mul_assoc, Nat.mul_div_cancel _ hwidth]
  have hparts : require (r.frames * r.block % r.width == 0) .partialSample = .ok () :=
    require_true (by simp [Recording.block, ← Nat.mul_assoc]) _
  have hframes : require (r.samples.length % r.channels == 0) .partialFrame = .ok () :=
    require_true (by simp [length_samples]) _
  have hchannels : deinterleave r.channels (r.samples.map fun x => scaled r.bits x.toInt) =
      r.buffer.channels := by
    rw [Recording.samples, List.map_flatten, List.map_ofFn]
    simp only [Function.comp_def, List.map_ofFn]
    exact deinterleave_frames fun f k => scaled r.bits (r.sample f k).toInt
  simp only [decode, Recording.file, List.append_assoc, hriff, hlength, hwave, htags, bind, Except.bind]
  rw [hdata]
  simp only [Recording.heading, hparts, hcount, hframes]
  have hread := readSamples_stored h r.samples rest []
  simp only [Recording.heading, List.reverse_nil, List.nil_append] at hread
  rw [Recording.data, hread]
  exact congrArg (fun channels => Except.ok (Float.ofNat r.rate, channels)) hchannels

-- All channels are of one length.
theorem assemble_buffer (r : Recording) :
    Audio.assemble r.buffer.rate r.buffer.channels = .ok r.buffer := by
  have hlength : ∀ channel ∈ r.buffer.channels, channel.length = r.frames := by
    intro channel hchannel
    obtain ⟨k, rfl⟩ := (List.mem_ofFn' _ _).1 hchannel
    exact List.length_ofFn
  have hbuffer : Buffer.ofChannels? r.buffer.rate r.buffer.channels = some r.buffer := by
    unfold Buffer.ofChannels?
    split
    case h_1 hnil => rw [← hnil]
    case h_2 first more hcons =>
        have hfirst : first.length = r.frames := hlength first (hcons ▸ List.mem_cons_self)
        rw [if_pos]
        exact List.all_eq_true.2 fun channel hchannel => by simp [hlength channel hchannel, hfirst]
  rw [Audio.assemble, hbuffer]

-- Every sample of every channel is heard at its part of half the range, in its place.
theorem samples_recovered (r : Recording) (h : r.Fits) (others : List Chunk)
    (hothers : ∀ chunk ∈ others, chunk.Other) (rest : Bytes) :
    Audio.decodeWav (r.file others ++ rest) = .ok r.buffer ∧
      Audio.decode (r.file others ++ rest) = .ok r.buffer := by
  have hwav : Audio.decodeWav (r.file others ++ rest) = .ok r.buffer := by
    rw [Audio.decodeWav, decode_file h hothers]
    exact assemble_buffer r
  have hriff : (tag "RIFF").isPrefixOf (r.file others ++ rest) = true := by
    rw [List.isPrefixOf_iff_prefix, Recording.file, List.append_assoc]
    exact List.prefix_append _ _
  refine ⟨hwav, ?_⟩
  rw [Audio.decode, if_pos hriff]
  exact hwav

-- Two frames of two channels, with the least and the greatest level among them.
def clip : Recording where
  bits := 24
  channels := 2
  rate := 22050
  frames := 2
  sample f k := ([[8388607, -8388608], [-1, 4194304]].getD f []).getD k 0

def remark : Chunk := ⟨tag "LIST", [104, 105, 33]⟩

theorem clip_recovered : clip.file [remark] = tag "RIFF" ++ [59, 0, 0, 0] ++ tag "WAVEfmt " ++
      [16, 0, 0, 0, 1, 0, 2, 0, 0x22, 0x56, 0, 0, 0xCC, 0x04, 2, 0, 6, 0, 24, 0] ++
      tag "LIST" ++ [3, 0, 0, 0, 104, 105, 33] ++ tag "data" ++
      [12, 0, 0, 0, 0xFF, 0xFF, 0x7F, 0, 0, 0x80, 0xFF, 0xFF, 0xFF, 0, 0, 0x40] ∧
    Audio.decodeWav (clip.file [remark] ++ [0]) = .ok clip.buffer ∧
    Audio.decode (clip.file [remark] ++ [0]) = .ok clip.buffer := by
  have hfits : clip.Fits := by constructor <;> decide
  have hother : ∀ chunk ∈ [remark], chunk.Other := by
    intro chunk hchunk
    obtain rfl := List.mem_singleton.1 hchunk
    constructor <;> decide
  exact ⟨by decide, samples_recovered clip hfits [remark] hother [0]⟩

end Patchbay.Wav
