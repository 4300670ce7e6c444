import Mathlib.Data.List.Infix
import Mathlib.Tactic.Ring
import Patchbay.Pitch

namespace Patchbay.Pitch

inductive Letter where
  | c
  | d
  | e
  | f
  | g
  | a
  | b

namespace Letter

-- In semitones above C.
def degree : Letter → Int
  | .c => 0
  | .d => 2
  | .e => 4
  | .f => 5
  | .g => 7
  | .a => 9
  | .b => 11

def capital : Letter → Char
  | .c => 'C'
  | .d => 'D'
  | .e => 'E'
  | .f => 'F'
  | .g => 'G'
  | .a => 'A'
  | .b => 'B'

def small : Letter → Char
  | .c => 'c'
  | .d => 'd'
  | .e => 'e'
  | .f => 'f'
  | .g => 'g'
  | .a => 'a'
  | .b => 'b'

end Letter

inductive Accidental where
  | sharp
  | flat
  deriving DecidableEq

namespace Accidental

def char : Accidental → Char
  | .sharp => '#'
  | .flat => 'b'

-- What accidentals add up to.
def shift (marks : List Accidental) : Int := marks.count .sharp - marks.count .flat

end Accidental

inductive Sign where
  | plus
  | minus

def Sign.char : Sign → Char
  | .plus => '+'
  | .minus => '-'

-- Whole numbers of 32 bits.
def Word (n : Int) : Prop := -0x80000000 ≤ n ∧ n < 0x80000000

instance (n : Int) : Decidable (Word n) := inferInstanceAs (Decidable (_ ∧ _))

theorem Word.toInt_ofInt {n : Int} (h : Word n) : (Int32.ofInt n).toInt = n :=
  Int32.toInt_ofInt_of_le h.1 h.2

theorem word_toInt (n : Int32) : Word n.toInt := ⟨n.le_toInt, n.toInt_lt⟩

structure Octave where
  sign : Option Sign
  digits : List Char
  given : digits ≠ []
  decimal : ∀ c ∈ digits, c.isDigit = true

namespace Octave

def text (octave : Octave) : List Char := (octave.sign.map Sign.char).toList ++ octave.digits

def value (octave : Octave) : Int :=
  match octave.sign with
  | some .minus => -(Nat.ofDigitChars 10 octave.digits 0 : Int)
  | some .plus | none => (Nat.ofDigitChars 10 octave.digits 0 : Int)

end Octave

structure Spelling where
  letter : Letter
  small : Bool
  accidentals : List Accidental
  octave : Octave
  fits : Word octave.value

namespace Spelling

def head (spelling : Spelling) : Char :=
  if spelling.small then spelling.letter.small else spelling.letter.capital

def text (spelling : Spelling) : String :=
  String.ofList (spelling.head :: (spelling.accidentals.map Accidental.char ++ spelling.octave.text))

def number (spelling : Spelling) : Int :=
  12 * (spelling.octave.value + 1) + spelling.letter.degree + spelling.accidentals.count .sharp -
    spelling.accidentals.count .flat

-- The semitones can be counted in 32 bits: none of the numbers that come up on the way is too large.
structure Counts (spelling : Spelling) : Prop where
  octave : Word (spelling.octave.value + 1)
  semitones : Word (12 * (spelling.octave.value + 1))
  shifts : ∀ front, front <+: spelling.accidentals →
    Word (spelling.letter.degree + Accidental.shift front)
  number : Word spelling.number

end Spelling

-- A small letter comes a fixed step after its capital.
theorem eq_of_toUpper {c capital : Char} (h : c.toUpper = capital) :
    c = capital ∨ c.val = capital.val + ('a'.val - 'A'.val) := by
  unfold Char.toUpper at h
  split at h
  case isTrue =>
      refine .inr ?_
      rw [← h, UInt32.add_assoc]
      exact (UInt32.add_zero _).symm
  case isFalse => exact .inl h

theorem letterSemitone_eq_some {c : Char} {semitone : Int32} :
    letterSemitone c = some semitone ↔ ∃ letter : Letter,
      (c = letter.capital ∨ c = letter.small) ∧ Int32.ofInt letter.degree = semitone := by
  constructor
  · intro h
    have hletter (letter : Letter) (hc : c.toUpper = letter.capital)
        (hdegree : some (Int32.ofInt letter.degree) = some semitone) : ∃ letter : Letter,
          (c = letter.capital ∨ c = letter.small) ∧ Int32.ofInt letter.degree = semitone := by
      have hsmall : letter.small.val = letter.capital.val + ('a'.val - 'A'.val) := by
        cases letter <;> rfl
      refine ⟨letter, (eq_of_toUpper hc).imp_right fun hval => ?_, Option.some_inj.1 hdegree⟩
      exact Char.ext (hval.trans hsmall.symm)
    unfold letterSemitone at h
    split at h
    case h_1 hc => exact hletter .c hc h
    case h_2 hc => exact hletter .d hc h
    case h_3 hc => exact hletter .e hc h
    case h_4 hc => exact hletter .f hc h
    case h_5 hc => exact hletter .g hc h
    case h_6 hc => exact hletter .a hc h
    case h_7 hc => exact hletter .b hc h
    case h_8 => cases h
  · rintro ⟨letter, rfl | rfl, rfl⟩ <;> cases letter <;> rfl

@[simp] theorem shift_sharp (marks : List Accidental) :
    Accidental.shift (.sharp :: marks) = Accidental.shift marks + 1 := by
  simp [Accidental.shift]
  ring

@[simp] theorem shift_flat (marks : List Accidental) :
    Accidental.shift (.flat :: marks) = Accidental.shift marks - 1 := by
  simp [Accidental.shift]
  ring

theorem accidentals_append (marks : List Accidental) (semitone : Int32) {cs : List Char}
    (h : ∀ c ∈ cs.head?, c ≠ '#' ∧ c ≠ 'b') :
    accidentals semitone (marks.map Accidental.char ++ cs) =
      (semitone + Int32.ofInt (Accidental.shift marks), cs) := by
  induction marks generalizing semitone with
  | nil =>
      have hnone : semitone + Int32.ofInt (Accidental.shift []) = semitone := Int32.add_zero _
      cases cs with
      | nil => simp [accidentals, hnone]
      | cons c rest =>
          obtain ⟨hsharp, hflat⟩ := h c rfl
          simp [accidentals, hsharp, hflat, hnone]
  | cons mark rest ih =>
      cases mark with
      | sharp =>
          rw [shift_sharp, Int.add_comm, Int32.ofInt_add, ← Int32.add_assoc]
          exact ih (semitone + 1)
      | flat =>
          rw [shift_flat, Int32.ofInt_sub, Int32.sub_eq_add_neg, Int32.add_comm (Int32.ofInt _),
            ← Int32.add_assoc, ← Int32.sub_eq_add_neg]
          exact ih (semitone - 1)

-- Every text begins with accidentals, if only with none.
theorem accidentals_split (cs : List Char) : ∃ (marks : List Accidental) (rest : List Char),
    cs = marks.map Accidental.char ++ rest ∧ ∀ c ∈ rest.head?, c ≠ '#' ∧ c ≠ 'b' := by
  induction cs with
  | nil => exact ⟨[], [], rfl, by simp⟩
  | cons c rest ih =>
      obtain ⟨marks, left, hrest, hleft⟩ := ih
      by_cases hsharp : c = '#'
      · exact ⟨.sharp :: marks, left, by rw [hsharp, hrest]; rfl, hleft⟩
      · by_cases hflat : c = 'b'
        · exact ⟨.flat :: marks, left, by rw [hflat, hrest]; rfl, hleft⟩
        · exact ⟨[], c :: rest, rfl, by simp [hsharp, hflat]⟩

theorem digits?_eq_some {cs : List Char} {n : Nat} : digits? cs = some n ↔
    cs ≠ [] ∧ (∀ c ∈ cs, c.isDigit = true) ∧ Nat.ofDigitChars 10 cs 0 = n := by
  have hvalue : decimalValue cs = Nat.ofDigitChars 10 cs 0 := by
    simp only [decimalValue, Nat.ofDigitChars_eq_foldl, Nat.mul_comm]
  simp only [digits?, hvalue, Option.ite_none_left_eq_some, Bool.or_eq_true, List.isEmpty_iff,
    Bool.not_eq_true', List.all_eq_false, Option.some.injEq, not_or, not_exists, not_and,
    Bool.not_eq_true, Bool.not_eq_false, and_assoc]

-- No sign and no accidental is a digit.
theorem Octave.digits_head (octave : Octave) :
    ∃ c rest, octave.digits = c :: rest ∧ c ≠ '+' ∧ c ≠ '-' ∧ c ≠ '#' ∧ c ≠ 'b' := by
  obtain ⟨c, rest, hdigits⟩ := List.exists_cons_of_ne_nil octave.given
  have hc : c.isDigit = true := octave.decimal c (by simp [hdigits])
  refine ⟨c, rest, hdigits, ?_, ?_, ?_, ?_⟩ <;>
    · rintro rfl
      cases hc

theorem octave?_text {octave : Octave} (h : Word octave.value) :
    octave? octave.text = some (Int32.ofInt octave.value) := by
  have hdigits : digits? octave.digits = some (Nat.ofDigitChars 10 octave.digits 0) :=
    digits?_eq_some.2 ⟨octave.given, octave.decimal, rfl⟩
  obtain ⟨c, rest, hhead, hplus, hminus, -, -⟩ := octave.digits_head
  have h : decide (-0x80000000 ≤ octave.value ∧ octave.value < 0x80000000) = true := decide_eq_true h
  obtain ⟨sign, digits, given, decimal⟩ := octave
  cases sign with
  | none =>
      obtain rfl : digits = c :: rest := hhead
      simpa [Octave.text, Octave.value, octave?, hplus, hminus, hdigits] using h
  | some sign =>
      cases sign with
      | plus | minus =>
          simpa [Octave.text, Octave.value, Sign.char, octave?, hdigits] using h

theorem octave?_eq_some {cs : List Char} {n : Int32} : octave? cs = some n ↔
    ∃ octave : Octave, octave.text = cs ∧ Word octave.value ∧ Int32.ofInt octave.value = n := by
  constructor
  · intro h
    obtain ⟨value, hread, rfl⟩ := Option.map_eq_some_iff.1 h
    obtain ⟨hvalue, hword⟩ := Option.filter_eq_some_iff.1 hread
    have hword : Word value := of_decide_eq_true hword
    split at hvalue
    all_goals
      obtain ⟨_, hsize, rfl⟩ := Option.map_eq_some_iff.1 hvalue
      obtain ⟨hgiven, hdecimal, rfl⟩ := digits?_eq_some.1 hsize
    case h_1 => exact ⟨⟨some .minus, _, hgiven, hdecimal⟩, rfl, hword, rfl⟩
    case h_2 => exact ⟨⟨some .plus, _, hgiven, hdecimal⟩, rfl, hword, rfl⟩
    case h_3 => exact ⟨⟨none, cs, hgiven, hdecimal⟩, rfl, hword, rfl⟩
  · rintro ⟨octave, rfl, hword, rfl⟩
    exact octave?_text hword

theorem letterSemitone_head (spelling : Spelling) :
    letterSemitone spelling.head = some (Int32.ofInt spelling.letter.degree) := by
  refine letterSemitone_eq_some.2 ⟨spelling.letter, ?_, rfl⟩
  unfold Spelling.head
  split
  · exact .inr rfl
  · exact .inl rfl

theorem Octave.text_head (octave : Octave) : ∀ c ∈ octave.text.head?, c ≠ '#' ∧ c ≠ 'b' := by
  intro c hc
  obtain ⟨digit, rest, hdigits, -, -, hsharp, hflat⟩ := octave.digits_head
  rw [text, hdigits] at hc
  cases hsign : octave.sign with
  | none =>
      rw [hsign] at hc
      obtain rfl : digit = c := Option.some_inj.1 hc
      exact ⟨hsharp, hflat⟩
  | some sign =>
      rw [hsign] at hc
      obtain rfl : sign.char = c := Option.some_inj.1 hc
      cases sign <;> decide

-- The sums wrap around, but only as a whole: they come to the number itself if that is a word.
theorem noteNumber_text (spelling : Spelling) :
    noteNumber spelling.text = some (Int32.ofInt spelling.number) := by
  have hmarks := accidentals_append spelling.accidentals (Int32.ofInt spelling.letter.degree)
    spelling.octave.text_head
  have hoctave := octave?_text spelling.fits
  have hnumber : spelling.number = (spelling.octave.value + 1) * 12 +
      (spelling.letter.degree + Accidental.shift spelling.accidentals) := by
    rw [Spelling.number, Accidental.shift]
    ring
  simp only [noteNumber, Spelling.text, String.toList_ofList, letterSemitone_head, hmarks, hoctave,
    Option.bind_eq_bind, Option.bind_some, Option.pure_def]
  rw [hnumber, Int32.ofInt_add, Int32.ofInt_mul, Int32.ofInt_add, Int32.ofInt_add]
  rfl

theorem spelled_of_noteNumber {name : String} {note : Int32} (h : noteNumber name = some note) :
    ∃ spelling : Spelling, spelling.text = name := by
  unfold noteNumber at h
  split at h
  case h_1 => cases h
  case h_2 first rest hname =>
      obtain ⟨semitone, hletter, h⟩ := Option.bind_eq_some_iff.1 h
      obtain ⟨marks, left, rfl, hleft⟩ := accidentals_split rest
      rw [accidentals_append marks semitone hleft] at h
      obtain ⟨n, hoctave, -⟩ := Option.bind_eq_some_iff.1 h
      obtain ⟨letter, hfirst, -⟩ := letterSemitone_eq_some.1 hletter
      obtain ⟨octave, rfl, hword, -⟩ := octave?_eq_some.1 hoctave
      have hspelled (small : Bool) (hhead : first = if small then letter.small else letter.capital) :
          (⟨letter, small, marks, octave, hword⟩ : Spelling).text = name := by
        rw [Spelling.text, Spelling.head, ← hhead, ← hname, String.ofList_toList]
      rcases hfirst with hfirst | hfirst
      · exact ⟨_, hspelled false hfirst⟩
      · exact ⟨_, hspelled true hfirst⟩

theorem noteNumber_eq_some {name : String} {note : Int32} : noteNumber name = some note ↔
    ∃ spelling : Spelling, spelling.text = name ∧ Int32.ofInt spelling.number = note := by
  constructor
  · intro h
    obtain ⟨spelling, rfl⟩ := spelled_of_noteNumber h
    rw [noteNumber_text] at h
    exact ⟨spelling, rfl, Option.some_inj.1 h⟩
  · rintro ⟨spelling, rfl, rfl⟩
    exact noteNumber_text spelling

-- What a name that spells a note is read as, and that nothing else is read. A note is read as its
-- number if that is a word, and as what is left of it in 32 bits if it is not.
theorem reads_what_is_spelled (name : String) :
    (∀ note, noteNumber name = some note ↔
      ∃ spelling : Spelling, spelling.text = name ∧ Int32.ofInt spelling.number = note) ∧
    (∀ spelling : Spelling, spelling.text = name → Word spelling.number →
      (noteNumber name).map Int32.toInt = some spelling.number) ∧
    (noteNumber name = none ↔ ∀ spelling : Spelling, spelling.text ≠ name) := by
  refine ⟨fun note => noteNumber_eq_some, ?_, ?_, ?_⟩
  · rintro spelling rfl hword
    rw [noteNumber_text, Option.map_some, hword.toInt_ofInt]
  · rintro h spelling rfl
    rw [noteNumber_text] at h
    cases h
  · intro h
    refine Option.eq_none_iff_forall_ne_some.2 fun note hnote => ?_
    obtain ⟨spelling, hspelling⟩ := spelled_of_noteNumber hnote
    exact h spelling hspelling

-- A number as it is written: a minus sign if it is negative, and the digits.
def Octave.ofInt (n : Int) : Octave where
  sign := if n < 0 then some .minus else none
  digits := Nat.toDigits 10 n.natAbs
  given := Nat.toDigits_ne_nil
  decimal _ hc := Nat.isDigit_of_mem_toDigits (by decide) (by decide) hc

theorem Octave.value_ofInt (n : Int) : (ofInt n).value = n := by
  have hsize : Nat.ofDigitChars 10 (Nat.toDigits 10 n.natAbs) 0 = n.natAbs :=
    Nat.ofDigitChars_ten_toDigits
  unfold value ofInt
  dsimp only
  rw [hsize]
  by_cases hn : n < 0
  · rw [if_pos hn]
    dsimp only
    omega
  · rw [if_neg hn]
    dsimp only
    omega

theorem Octave.text_ofInt (n : Int) : (toString n).toList = (ofInt n).text := by
  cases n with
  | ofNat n =>
      change (Nat.repr n).toList = _
      rw [Nat.repr_eq_ofList_toDigits, String.toList_ofList]
      rfl
  | negSucc n =>
      change ("-" ++ Nat.repr (n + 1)).toList = _
      simp [Nat.repr_eq_ofList_toDigits, text, ofInt, Sign.char]

-- The letters of the pitch classes, and how often each is lowered.
def classes : List (Letter × Nat) := [
  (.c, 0), (.d, 1), (.d, 0), (.e, 1), (.e, 0), (.f, 0), (.g, 1), (.g, 0), (.a, 1), (.a, 0), (.b, 1),
  (.b, 0)]

theorem names_spelled : ∀ k < 12, ∃ entry ∈ classes,
    (names.getD k "").toList = entry.1.capital :: List.replicate entry.2 'b' ∧
      entry.1.degree = k + entry.2 ∧ entry.2 ≤ 1 := by
  decide

-- A note is spelled by its name, in which at most one flat stands.
theorem noteName_spelled {note : Int} (h : Word (note / 12 - 1)) : ∃ spelling : Spelling,
    spelling.text = noteName note ∧ spelling.number = note ∧
      spelling.octave.value = note / 12 - 1 ∧ ∃ flats ≤ 1,
        spelling.accidentals = List.replicate flats .flat ∧
          spelling.letter.degree = note % 12 + flats := by
  obtain ⟨k, hk⟩ := Int.eq_ofNat_of_zero_le (Int.emod_nonneg note (show (12 : Int) ≠ 0 by decide))
  obtain ⟨⟨letter, flats⟩, -, hname, hdegree, hflats⟩ := names_spelled k (by omega)
  dsimp only at hname hdegree hflats
  have hvalue := Octave.value_ofInt (note / 12 - 1)
  refine ⟨⟨letter, false, List.replicate flats .flat, .ofInt (note / 12 - 1), by rwa [hvalue]⟩,
    ?text, ?number, hvalue, flats, hflats, rfl, by rw [hk, hdegree]⟩
  case text =>
      rw [← String.toList_inj, Spelling.text, String.toList_ofList, noteName, String.toList_append,
        Octave.text_ofInt, hk, Int.toNat_natCast, hname, List.map_replicate]
      rfl
  case number =>
      have hsharps : (List.replicate flats Accidental.flat).count .sharp = 0 :=
        List.count_eq_zero.2 fun hmem => by cases (List.mem_replicate.1 hmem).2
      simp only [Spelling.number, hvalue, hsharps, List.count_replicate_self, hdegree]
      omega

theorem noteNumber_noteName {note : Int}
    (h : -0x80000000 ≤ note / 12 - 1 ∧ note / 12 - 1 < 0x80000000) :
    noteNumber (noteName note) = some (Int32.ofInt note) := by
  obtain ⟨spelling, htext, rfl, -⟩ := noteName_spelled h
  rw [← htext]
  exact noteNumber_text spelling

-- Every note of 32 bits reads back from its name, and its semitones can be counted in 32 bits as long
-- as the first note of its octave is one of 32 bits too.
theorem named_note_reads_back (note : Int32) (hoctave : Word (12 * (note.toInt / 12))) :
    noteNumber (noteName note.toInt) = some note ∧
      ∃ spelling : Spelling, spelling.text = noteName note.toInt ∧
        spelling.number = note.toInt ∧ spelling.Counts := by
  have hnote := word_toInt note
  generalize hn : note.toInt = n at hnote hoctave
  unfold Word at hnote hoctave
  have hword : Word (n / 12 - 1) := by
    unfold Word
    omega
  obtain ⟨spelling, htext, hnumber, hvalue, flats, hflats, hmarks, hdegree⟩ := noteName_spelled hword
  refine ⟨?reads, spelling, htext, hnumber, ?octave, ?semitones, fun front hfront => ?shifts,
    by rwa [hnumber]⟩
  case reads => rw [noteNumber_noteName hword, ← hn, Int32.ofInt_toInt]
  case octave =>
      rw [hvalue, Word]
      omega
  case semitones =>
      rw [hvalue, Word]
      omega
  case shifts =>
      rw [hmarks] at hfront
      obtain ⟨hlength, hfront⟩ := List.prefix_replicate_iff.1 hfront
      have hshift : Accidental.shift front = -front.length := by
        rw [hfront, Accidental.shift]
        simp [List.count_replicate]
      rw [hshift, hdegree, Word]
      omega

-- The lowest of them.
theorem lowest_note_reads_back : Word (12 * ((-2147483640 : Int32).toInt / 12)) ∧
    noteNumber (noteName (-2147483640 : Int32).toInt) = some (-2147483640) := by
  have hoctave : Word (12 * ((-2147483640 : Int32).toInt / 12)) := by decide
  exact ⟨hoctave, (named_note_reads_back (-2147483640) hoctave).1⟩

-- Beyond them the sums may leave the word.
example : noteNumber "C2147483647" = some 0 := by decide +kernel

end Patchbay.Pitch
