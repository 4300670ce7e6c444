import Mathlib.Algebra.GroupWithZero.Nat
import Mathlib.Data.List.TakeWhile
import Patchbay.Patch.Report

namespace Patchbay.Report

def newline : UInt8 := 10

def bytes (text : String) : List UInt8 := text.toUTF8.data.toList

-- Lines and the bytes on them count from one.
def lineOf (bytes : List UInt8) (i : Nat) : Nat := (bytes.take i).count newline + 1

-- How many of the bytes before stand on the same line.
def lineDepth (before : List UInt8) : Nat := (before.reverse.takeWhile (· ≠ newline)).length

def columnOf (bytes : List UInt8) (i : Nat) : Nat := lineDepth (bytes.take i) + 1

-- As the lines of characters, with the bytes of the first line so far.
def byteLengths : Nat → List UInt8 → List Nat
  | length, [] => if length = 0 then [] else [length]
  | length, b :: rest =>
    if b = newline then (length + 1) :: byteLengths 0 rest else byteLengths (length + 1) rest

theorem byteLengths_plain (length : Nat) {front : List UInt8} (h : newline ∉ front)
    (rest : List UInt8) :
    byteLengths length (front ++ rest) = byteLengths (length + front.length) rest := by
  induction front generalizing length with
  | nil => rfl
  | cons b front ih =>
      rw [List.mem_cons, not_or] at h
      rw [List.cons_append, byteLengths, if_neg (Ne.symm h.1), ih _ h.2, List.length_cons]
      congr 1
      omega

-- Every byte of a character that is not ASCII is at least 128.
theorem newline_not_mem_utf8 {c : Char} (h : c ≠ '\n') : newline ∉ String.utf8EncodeChar c := by
  have hval : c.toNat ≠ 10 := fun heq => h (Char.ext (UInt32.toNat_inj.1 heq))
  have hcode : c.val.toNat = c.toNat := rfl
  intro hmem
  simp only [String.utf8EncodeChar] at hmem
  split at hmem
  · simp [newline, ← UInt8.toNat_inj] at hmem
    omega
  · split at hmem
    · simp [newline, ← UInt8.toNat_inj] at hmem
      omega
    · split at hmem
      · simp [newline, ← UInt8.toNat_inj] at hmem
        omega
      · simp [newline, ← UInt8.toNat_inj] at hmem
        omega

theorem lineLengths_eq (length : Nat) (cs : List Char) :
    lineLengths length cs = byteLengths length (cs.flatMap String.utf8EncodeChar) := by
  induction cs generalizing length with
  | nil => rfl
  | cons c cs ih =>
      rw [List.flatMap_cons, lineLengths]
      by_cases hc : c = '\n'
      · subst hc
        rw [if_pos rfl, ih]
        rfl
      · rw [if_neg hc, ih, byteLengths_plain length (newline_not_mem_utf8 hc),
          String.length_utf8EncodeChar]

theorem bytes_eq (text : String) : bytes text = text.toList.flatMap String.utf8EncodeChar := by
  have htext := text.ofList_toList
  rw [bytes, ← htext, String.toUTF8, String.toByteArray_ofList, List.utf8Encode, htext]
  simp

theorem lineDepth_cons (b : UInt8) (before : List UInt8) : lineDepth (b :: before) =
    if b ≠ newline ∧ before.count newline = 0 then lineDepth before + 1 else lineDepth before := by
  unfold lineDepth
  rw [List.reverse_cons, List.takeWhile_append]
  by_cases hplain : before.count newline = 0
  · have hself : before.reverse.takeWhile (· ≠ newline) = before.reverse := by
      rw [List.takeWhile_eq_self_iff]
      intro d hd
      have hne : d ≠ newline := by
        rintro rfl
        exact List.count_eq_zero.1 hplain (List.mem_reverse.1 hd)
      simpa using hne
    rw [hself, if_pos rfl]
    by_cases hb : b = newline <;> simp [hplain, hb]
  · have hmem : newline ∈ before := List.count_pos_iff.1 (Nat.pos_of_ne_zero hplain)
    have hshort : (before.reverse.takeWhile (· ≠ newline)).length ≠ before.reverse.length := by
      intro heq
      have hall := List.takeWhile_eq_self_iff.1 ((List.takeWhile_prefix _).eq_of_length heq)
      simpa using hall newline (List.mem_reverse.2 hmem)
    rw [if_neg hshort, if_neg fun h => hplain h.2]

-- The lines that end before a byte and the bytes before it on its own line are all that come before
-- it. The first line has `length` bytes more.
theorem sum_byteLengths (length : Nat) {bytes : List UInt8} {i : Nat} (hi : i ≤ bytes.length) :
    ((byteLengths length bytes).take ((bytes.take i).count newline)).sum +
      (lineDepth (bytes.take i) + if (bytes.take i).count newline = 0 then length else 0) =
      length + i := by
  induction bytes generalizing length i with
  | nil =>
      obtain rfl : i = 0 := by simpa using hi
      simp [lineDepth]
  | cons b bytes ih =>
      cases i with
      | zero => simp [lineDepth]
      | succ i =>
          rw [List.length_cons] at hi
          rw [List.take_succ_cons]
          by_cases hb : b = newline
          · subst hb
            have hrest := ih 0 (i := i) (by omega)
            rw [byteLengths, if_pos rfl, List.count_cons_self, lineDepth_cons,
              if_neg fun h => h.1 rfl, List.take_succ_cons, List.sum_cons, if_neg (Nat.succ_ne_zero _)]
            rw [ite_self] at hrest
            omega
          · have hrest := ih (length + 1) (i := i) (by omega)
            rw [byteLengths, if_neg hb, List.count_cons_of_ne hb, lineDepth_cons]
            by_cases hplain : (bytes.take i).count newline = 0
            · rw [if_pos ⟨hb, hplain⟩, if_pos hplain]
              rw [if_pos hplain] at hrest
              omega
            · rw [if_neg fun h => hplain h.2, if_neg hplain]
              rw [if_neg hplain] at hrest
              omega

theorem le_sum_byteLengths (length : Nat) (bytes : List UInt8) {n : Nat} (hn : 0 < n) :
    length ≤ ((byteLengths length bytes).take n).sum := by
  obtain ⟨n, rfl⟩ := Nat.exists_eq_add_of_lt hn
  induction bytes generalizing length with
  | nil => by_cases h : length = 0 <;> simp [byteLengths, h]
  | cons b bytes ih =>
      by_cases hb : b = newline
      · simp only [byteLengths, if_pos hb, Nat.zero_add, List.take_succ_cons, List.sum_cons]
        omega
      · simp only [byteLengths, if_neg hb]
        exact Nat.le_of_succ_le (ih (length + 1))

theorem sum_byteLengths_le (length n : Nat) (bytes : List UInt8) :
    ((byteLengths length bytes).take n).sum ≤ length + bytes.length := by
  induction bytes generalizing length n with
  | nil => by_cases h : length = 0 <;> cases n <;> simp [byteLengths, h]
  | cons b bytes ih =>
      by_cases hb : b = newline
      · cases n with
        | zero => simp
        | succ n =>
            have hrest := ih 0 n
            simp only [byteLengths, if_pos hb, List.take_succ_cons, List.sum_cons, List.length_cons]
            omega
      · have hrest := ih (length + 1) n
        simp only [byteLengths, if_neg hb, List.length_cons]
        omega

-- A byte lies on one of the first lines if fewer newlines than these have stand before it.
theorem lt_sum_byteLengths (length : Nat) {bytes : List UInt8} {i n : Nat} (hi : i < bytes.length) :
    length + i < ((byteLengths length bytes).take n).sum ↔ (bytes.take i).count newline < n := by
  induction bytes generalizing length i n with
  | nil => simp at hi
  | cons b bytes ih =>
      rw [List.length_cons] at hi
      by_cases hb : b = newline
      · cases n with
        | zero => simp
        | succ n =>
            simp only [byteLengths, if_pos hb, List.take_succ_cons, List.sum_cons]
            cases i with
            | zero =>
                simp only [List.take_zero, List.count_nil]
                omega
            | succ i =>
                have hrest := ih 0 (i := i) (n := n) (by omega)
                rw [List.take_succ_cons, hb, List.count_cons_self]
                omega
      · simp only [byteLengths, if_neg hb]
        cases i with
        | zero =>
            simp only [List.take_zero, List.count_nil]
            by_cases hn : 0 < n
            · have hfirst := le_sum_byteLengths (length + 1) bytes hn
              omega
            · obtain rfl : n = 0 := by omega
              simp
        | succ i =>
            have hrest := ih (length + 1) (i := i) (n := n) (by omega)
            rw [List.take_succ_cons, List.count_cons_of_ne hb]
            omega

-- The bytes before `start` are those of the lines before. A line that is not there starts at the end.
def Starts (text : String) (line start : Nat) : Prop :=
  start ≤ text.utf8ByteSize ∧ ∀ i < text.utf8ByteSize, i < start ↔ lineOf (bytes text) i < line

def lineStart (text : String) (line : Nat) : Nat :=
  ((byteLengths 0 (bytes text)).take (line - 1)).sum

theorem starts_lineStart (text : String) (line : Nat) : Starts text line (lineStart text line) := by
  constructor
  · have hle := sum_byteLengths_le 0 (line - 1) (bytes text)
    rwa [Nat.zero_add] at hle
  · intro i hi
    have hlength : i < (bytes text).length := hi
    have hlt := lt_sum_byteLengths 0 (n := line - 1) hlength
    rw [Nat.zero_add] at hlt
    rw [lineStart, hlt, lineOf]
    omega

-- A byte stands behind the start of its line by what comes before it there.
theorem lineStart_add {text : String} {i : Nat} (hi : i ≤ text.utf8ByteSize) :
    lineStart text (lineOf (bytes text) i) + (columnOf (bytes text) i - 1) = i := by
  have hlength : i ≤ (bytes text).length := hi
  have hsum := sum_byteLengths 0 hlength
  rw [ite_self] at hsum
  simp only [lineStart, lineOf, columnOf, Nat.add_sub_cancel]
  omega

section Words

variable {text : String} (hsize : text.utf8ByteSize < 2 ^ 63)
include hsize

theorem byteOffset_eq (line column : UInt64) : byteOffset text line column =
    min ((lineStart text line.toNat + (column.toNat - 1)) % 2 ^ 64) text.utf8ByteSize := by
  have hstart := (starts_lineStart text line.toNat).1
  have hcolumn := column.toNat_lt
  have hbefore : ((lineLengths 0 text.toList).take (line.toNat - 1)).foldl (· + ·) 0 =
      lineStart text line.toNat := by
    rw [← List.sum_eq_foldl, lineLengths_eq, ← bytes_eq, lineStart]
  simp only [byteOffset, hbefore, UInt64.toNat_add, UInt64.toNat_ofNat']
  rw [Nat.mod_eq_of_lt (a := lineStart text line.toNat) (by omega),
    Nat.mod_eq_of_lt (a := column.toNat - 1) (by omega)]

theorem byteOffset_place {i : Nat} (hi : i ≤ text.utf8ByteSize) :
    byteOffset text (.ofNat (lineOf (bytes text) i)) (.ofNat (columnOf (bytes text) i)) = i := by
  have hlines : (bytes text |>.take i).count newline ≤ i :=
    Nat.le_trans List.count_le_length (List.length_take_le ..)
  have hsum := lineStart_add hi
  have hline : (UInt64.ofNat (lineOf (bytes text) i)).toNat = lineOf (bytes text) i := by
    rw [UInt64.toNat_ofNat', Nat.mod_eq_of_lt]
    rw [lineOf]
    omega
  have hcolumn : (UInt64.ofNat (columnOf (bytes text) i)).toNat = columnOf (bytes text) i := by
    rw [UInt64.toNat_ofNat', Nat.mod_eq_of_lt]
    rw [columnOf] at hsum ⊢
    omega
  rw [byteOffset_eq hsize, hline, hcolumn, hsum, Nat.mod_eq_of_lt (by omega)]
  exact Nat.min_eq_left hi

end Words

-- A byte is found again from its line and column, as is the end of the text, and the sum that finds it
-- is no greater than the text. Whatever line and column are asked for, the sum of words that starts at
-- that line stands for a byte or for the end. No text in memory has more bytes than are asked for here.
theorem byteOffset_inverts (text : String) (hsize : text.utf8ByteSize < 2 ^ 63) :
    (∀ i ≤ text.utf8ByteSize,
      byteOffset text (.ofNat (lineOf (bytes text) i)) (.ofNat (columnOf (bytes text) i)) = i ∧
        ∃ start, Starts text (lineOf (bytes text) i) start ∧
          start + (columnOf (bytes text) i - 1) = i) ∧
    ∀ line column : UInt64, byteOffset text line column ≤ text.utf8ByteSize ∧
      ∃ start, Starts text line.toNat start ∧ byteOffset text line column =
        min ((start + (column.toNat - 1)) % 2 ^ 64) text.utf8ByteSize := by
  refine ⟨fun i hi => ⟨byteOffset_place hsize hi, ?_⟩, fun line column => ⟨?_, ?_⟩⟩
  · exact ⟨_, starts_lineStart text _, lineStart_add hi⟩
  · rw [byteOffset_eq hsize]
    exact Nat.min_le_right _ _
  · exact ⟨_, starts_lineStart text _, byteOffset_eq hsize line column⟩

-- After a character of two bytes and an empty line.
theorem byteOffset_third_line : "é\n\nab".utf8ByteSize < 2 ^ 63 ∧ 5 ≤ "é\n\nab".utf8ByteSize ∧
    lineOf (bytes "é\n\nab") 5 = 3 ∧ columnOf (bytes "é\n\nab") 5 = 2 ∧
      byteOffset "é\n\nab" 3 2 = 5 := by
  have hsize : "é\n\nab".utf8ByteSize < 2 ^ 63 := by decide
  have hi : 5 ≤ "é\n\nab".utf8ByteSize := by decide
  have hline : lineOf (bytes "é\n\nab") 5 = 3 := by decide +kernel
  have hcolumn : columnOf (bytes "é\n\nab") 5 = 2 := by decide +kernel
  have hplace := ((byteOffset_inverts "é\n\nab" hsize).1 5 hi).1
  rw [hline, hcolumn] at hplace
  exact ⟨hsize, hi, hline, hcolumn, hplace⟩

-- A column that no line has may take the sum round to a byte before the line.
example : byteOffset "a\nb" 2 0xFFFFFFFFFFFFFFFF = 0 := by decide +kernel

end Patchbay.Report
