import Mathlib.Data.List.Induction
import Mathlib.Tactic.IntervalCases
import Patchbay.Error

namespace Patchbay.Registration

def digits : List Char := ['0', '1', '2', '3', '4', '5', '6', '7', '8']

-- What counts of a text.
def written (text : String) : List Char := text.toList.filter fun c => !Text.isBlank c

-- The first character that is no digit of a bar, or that would be the tenth bar.
def Refused (cs : List Char) (c : Char) : Prop :=
  ∃ before after, cs = before ++ c :: after ∧ (∀ b ∈ before, b ∈ digits) ∧
    before.length ≤ count ∧ (c ∉ digits ∨ before.length = count)

theorem bar?_of_digit {c : Char} (h : c ∈ digits) : bar? c = some (digits.idxOf c) := by
  have hall : (digits.all fun c => bar? c = some (digits.idxOf c)) = true := by decide
  simpa using List.all_eq_true.1 hall c h

theorem bar?_of_not_digit {c : Char} (h : c ∉ digits) : bar? c = none := by
  unfold bar?
  apply if_neg
  rintro ⟨hleast, hmost⟩
  have hlow : 48 ≤ c.toNat := hleast
  have hhigh : c.toNat ≤ 56 := hmost
  -- Nine numbers are left for the character, and each of them is a digit's.
  have hc : Char.ofNat c.toNat = c := Char.ofNat_toNat c
  rw [← hc] at h
  interval_cases c.toNat <;> exact h (by decide)

theorem readBars_digits (text : String) {cs : List Char} (hcs : ∀ c ∈ cs, c ∈ digits)
    (bars : List Nat) (hcount : bars.length + cs.length ≤ count) (rest : List Char) :
    readBars text bars (cs ++ rest) = readBars text (bars ++ cs.map digits.idxOf) rest := by
  induction cs generalizing bars with
  | nil => simp
  | cons c cs ih =>
      rw [List.forall_mem_cons] at hcs
      rw [List.length_cons] at hcount
      have hroom : ¬count ≤ bars.length := by omega
      have hrest := ih hcs.2 (bars ++ [digits.idxOf c])
        (by rw [List.length_append, List.length_singleton]; omega)
      rw [List.cons_append, readBars, bar?_of_digit hcs.1]
      simp [hroom, hrest]

theorem readBars_refused (text : String) {cs : List Char} {c : Char} (h : Refused cs c) :
    readBars text [] cs =
      .error (if c ∈ digits then .tooManyDrawbars text else .badDrawbar c text) := by
  obtain ⟨before, after, rfl, hbefore, hlength, hc⟩ := h
  rw [readBars_digits text hbefore [] (by simpa using hlength), readBars]
  by_cases hdigit : c ∈ digits
  · have hfull : count ≤ before.length := by
      have := hc.resolve_left (not_not_intro hdigit)
      omega
    simp [bar?_of_digit hdigit, hdigit, hfull]
  · simp [bar?_of_not_digit hdigit, hdigit]

-- Either nothing is wrong with the characters, or one of them is the first that is.
theorem fits_or_refused (cs : List Char) :
    (cs.length ≤ count ∧ ∀ c ∈ cs, c ∈ digits) ∨ ∃ c, Refused cs c := by
  induction cs using List.reverseRecOn with
  | nil => exact .inl (by simp)
  | append_singleton cs c ih =>
      rcases ih with ⟨hlength, hdigits⟩ | ⟨d, before, after, rfl, hrefused⟩
      · by_cases hc : c ∉ digits ∨ cs.length = count
        · exact .inr ⟨c, cs, [], rfl, hdigits, hlength, hc⟩
        · rw [not_or, not_not] at hc
          refine .inl ⟨?_, ?_⟩
          · rw [List.length_append, List.length_singleton]
            omega
          · intro d hd
            rcases List.mem_append.1 hd with hd | hd
            · exact hdigits d hd
            · rw [List.mem_singleton.1 hd]
              exact hc.1
      · exact .inr ⟨d, before, after ++ [c], by simp, hrefused⟩

theorem ofText_eq (text : String) : ofText text =
    match readBars text [] (written text) with
    | .ok bars => .ok ⟨bars ++ List.replicate (count - bars.length) 0⟩
    | .error fault => .error (.config (.registration fault)) := by
  unfold ofText parse written
  cases readBars text [] (text.toList.filter fun c => !Text.isBlank c) <;> rfl

theorem ofText_of_fits {text : String} (hlength : (written text).length ≤ count)
    (hdigits : ∀ c ∈ written text, c ∈ digits) :
    ofText text = .ok ⟨(written text).map digits.idxOf ++
      List.replicate (count - (written text).length) 0⟩ := by
  have hread := readBars_digits text hdigits [] (by simpa using hlength) []
  rw [List.append_nil, readBars, List.nil_append] at hread
  rw [ofText_eq, hread]
  simp only [List.length_map]

theorem ofText_of_refused {text : String} {c : Char} (h : Refused (written text) c) :
    ofText text = .error (.config (.registration
      (if c ∈ digits then .tooManyDrawbars text else .badDrawbar c text))) := by
  rw [ofText_eq, readBars_refused text h]

-- A text is read exactly when it is up to nine digits and blanks, and otherwise it is refused for the
-- first character that keeps it from being that.
theorem reads_drawbars (text : String) :
    (∀ registration, ofText text = .ok registration ↔
      (written text).length ≤ count ∧ (∀ c ∈ written text, c ∈ digits) ∧
        registration.bars = (written text).map digits.idxOf ++
          List.replicate (count - (written text).length) 0) ∧
    ∀ error, ofText text = .error error ↔
      ∃ c, Refused (written text) c ∧ error = .config (.registration
        (if c ∈ digits then .tooManyDrawbars text else .badDrawbar c text)) := by
  refine ⟨fun registration => ⟨fun h => ?_, ?_⟩, fun error => ⟨fun h => ?_, ?_⟩⟩
  · rcases fits_or_refused (written text) with ⟨hlength, hdigits⟩ | ⟨c, hc⟩
    · rw [ofText_of_fits hlength hdigits, Except.ok.injEq] at h
      exact ⟨hlength, hdigits, h ▸ rfl⟩
    · rw [ofText_of_refused hc] at h
      contradiction
  · rintro ⟨hlength, hdigits, hbars⟩
    rw [ofText_of_fits hlength hdigits, ← hbars]
  · rcases fits_or_refused (written text) with ⟨hlength, hdigits⟩ | ⟨c, hc⟩
    · rw [ofText_of_fits hlength hdigits] at h
      contradiction
    · rw [ofText_of_refused hc, Except.error.injEq] at h
      exact ⟨c, hc, h.symm⟩
  · rintro ⟨c, hc, rfl⟩
    exact ofText_of_refused hc

example : ofText "88 8000 008" = .ok ⟨[8, 8, 8, 0, 0, 0, 0, 0, 8]⟩ := by cbv

end Patchbay.Registration
