import Patchbay.Proofs.Decimal.Shortest
import Patchbay.Proofs.Decimal.Numeral
import Patchbay.Proofs.Json.RoundTrip

namespace Patchbay.Json

-- The characters of a number as they are printed.
structure Figures where
  whole : List Char
  fraction : List Char
  -- Whether the exponent is negative, and its digits.
  exponent : Option (Bool × List Char)

namespace Figures

def fractionText (digits : List Char) : List Char := if digits = [] then [] else '.' :: digits

def exponentText : Option (Bool × List Char) → List Char
  | none => []
  | some (below, digits) => 'e' :: (if below then '-' else '+') :: digits

def text (figures : Figures) : List Char :=
  figures.whole ++ (fractionText figures.fraction ++ exponentText figures.exponent)

def numeral (negative : Bool) (figures : Figures) : Numeral where
  negative := negative
  whole := figures.whole.map digitValue
  fraction := figures.fraction.map digitValue
  exponent := figures.exponent.map fun power => (power.1, power.2.map digitValue)

-- No 0 leads a number but the one that stands alone before the point.
structure Sound (figures : Figures) : Prop where
  whole : ∀ c ∈ figures.whole, c.isDigit = true
  lead : figures.whole = ['0'] ∨ ∃ c rest, figures.whole = c :: rest ∧ c ≠ '0'
  fraction : ∀ c ∈ figures.fraction, c.isDigit = true
  exponent : ∀ power ∈ figures.exponent, power.2 ≠ [] ∧ ∀ c ∈ power.2, c.isDigit = true

theorem spanDigits_of_digits {digits rest : List Char} (hdigits : ∀ c ∈ digits, c.isDigit = true)
    (hrest : ∀ c ∈ rest.head?, c.isDigit = false) :
    spanDigits (digits ++ rest) = (digits.map digitValue, rest) := by
  have hnone : rest.takeWhile Char.isDigit = [] ∧ rest.dropWhile Char.isDigit = rest := by
    cases rest with
    | nil => exact ⟨rfl, rfl⟩
    | cons c rest =>
        have hc : c.isDigit = false := hrest c rfl
        simp [hc]
  rw [spanDigits, List.takeWhile_append_of_pos hdigits, List.dropWhile_append_of_pos hdigits,
    hnone.1, hnone.2, List.append_nil]

theorem exponentText_head (exponent : Option (Bool × List Char)) :
    ∀ c ∈ (exponentText exponent).head?, c.isDigit = false ∧ c ≠ '.' := by
  cases exponent with
  | none => simp [exponentText]
  | some power => simp [exponentText]

theorem fractionText_head {digits rest : List Char}
    (hrest : ∀ c ∈ rest.head?, c.isDigit = false ∧ c ≠ '.') :
    ∀ c ∈ (fractionText digits ++ rest).head?, c.isDigit = false := by
  unfold fractionText
  split
  · exact fun c hc => (hrest c hc).1
  · simp

theorem scanExponent_text {exponent : Option (Bool × List Char)}
    (h : ∀ power ∈ exponent, power.2 ≠ [] ∧ ∀ c ∈ power.2, c.isDigit = true) (o : Nat) :
    ∃ stop, scanExponent (exponentText exponent) o =
      .ok (exponent.map fun power => (power.1, power.2.map digitValue), [], stop) := by
  cases exponent with
  | none => exact ⟨o, rfl⟩
  | some power =>
      obtain ⟨below, digits⟩ := power
      obtain ⟨hne, hdigits⟩ := h _ rfl
      have hspan : spanDigits digits = (digits.map digitValue, []) := by
        have hnone : ∀ c ∈ ([] : List Char).head?, c.isDigit = false := by simp
        rw [← spanDigits_of_digits hdigits hnone, List.append_nil]
      refine ⟨o + 2 + digits.length, ?_⟩
      cases digits with
      | nil => contradiction
      | cons d digits =>
          cases below <;> simp [exponentText, scanExponent, hspan]

theorem scanFraction_text {digits rest : List Char} (hdigits : ∀ c ∈ digits, c.isDigit = true)
    (hrest : ∀ c ∈ rest.head?, c.isDigit = false ∧ c ≠ '.') (o : Nat) :
    ∃ stop, scanFraction (fractionText digits ++ rest) o =
      .ok (digits.map digitValue, rest, stop) := by
  cases digits with
  | nil =>
      refine ⟨o, ?_⟩
      unfold scanFraction
      split
      case h_1 more heq =>
          have heq : rest = '.' :: more := heq
          exact absurd rfl (hrest '.' (by simp [heq])).2
      case h_2 => rfl
  | cons d digits =>
      have hspan := spanDigits_of_digits hdigits fun c hc => (hrest c hc).1
      refine ⟨o + 1 + (d :: digits).length, ?_⟩
      simp only [fractionText, reduceCtorEq, ↓reduceIte, scanFraction, List.cons_append]
      simp only [List.cons_append] at hspan
      rw [hspan]
      simp

theorem scanWhole_text {digits rest : List Char} (hdigits : ∀ c ∈ digits, c.isDigit = true)
    (hlead : digits = ['0'] ∨ ∃ c more, digits = c :: more ∧ c ≠ '0')
    (hrest : ∀ c ∈ rest.head?, c.isDigit = false) (o : Nat) :
    ∃ stop, scanWhole (digits ++ rest) o = .ok (digits.map digitValue, rest, stop) := by
  obtain rfl | ⟨c, more, rfl, hc⟩ := hlead
  · refine ⟨o + 1, ?_⟩
    cases rest with
    | nil => rfl
    | cons c rest =>
        have hc : c.isDigit = false := hrest c rfl
        simp [scanWhole, hc]
        rfl
  · have hspan := spanDigits_of_digits hdigits hrest
    have hdigit : c.isDigit = true := hdigits c List.mem_cons_self
    refine ⟨o + (c :: more).length, ?_⟩
    rw [List.cons_append] at hspan ⊢
    unfold scanWhole
    split
    case h_1 heq => cases heq
    case h_2 heq => exact absurd (List.cons.inj heq).1 hc
    case h_3 heq =>
        obtain ⟨rfl, rfl⟩ := List.cons.inj heq
        rw [if_pos hdigit, hspan]
        simp

theorem Sound.head {figures : Figures} (h : figures.Sound) :
    ∃ c rest, figures.text = c :: rest ∧ c.isDigit = true := by
  obtain hzero | ⟨c, rest, hwhole, -⟩ := h.lead
  · exact ⟨'0', _, by rw [text, hzero]; rfl, rfl⟩
  · exact ⟨c, _, by rw [text, hwhole]; rfl, h.whole c (hwhole ▸ List.mem_cons_self)⟩

def signText (negative : Bool) : List Char := if negative then ['-'] else []

theorem scanSign_text {figures : Figures} (h : figures.Sound) (negative : Bool) (o : Nat) :
    ∃ start, scanSign (signText negative ++ figures.text) o = (negative, figures.text, start) := by
  obtain ⟨c, rest, htext, hc⟩ := h.head
  rw [htext]
  cases negative with
  | true => exact ⟨o + 1, rfl⟩
  | false =>
      refine ⟨o, ?_⟩
      change scanSign (c :: rest) o = _
      unfold scanSign
      split
      case h_1 heq =>
          obtain ⟨rfl, -⟩ := List.cons.inj heq
          cases hc
      case h_2 => rfl

theorem scanNumeral_text {figures : Figures} (h : figures.Sound) (negative : Bool) (o : Nat) :
    ∃ stop, scanNumeral (signText negative ++ figures.text) o =
      .ok (figures.numeral negative, [], stop) := by
  obtain ⟨start, hsign⟩ := scanSign_text h negative o
  have hrest : ∀ c ∈ (fractionText figures.fraction ++ exponentText figures.exponent).head?,
      c.isDigit = false := fractionText_head (exponentText_head figures.exponent)
  obtain ⟨next, hwhole⟩ := scanWhole_text h.whole h.lead hrest start
  obtain ⟨last, hfraction⟩ := scanFraction_text h.fraction (exponentText_head figures.exponent) next
  obtain ⟨stop, hexponent⟩ := scanExponent_text h.exponent last
  refine ⟨stop, ?_⟩
  unfold scanNumeral
  rw [hsign]
  simp only [text, hwhole, hfraction, hexponent, bind, Except.bind]
  rfl

theorem text_leads {figures : Figures} (h : figures.Sound) (negative : Bool) :
    ∃ c rest, signText negative ++ figures.text = c :: rest ∧ Leads c := by
  cases negative with
  | true => exact ⟨'-', figures.text, rfl, .inr rfl⟩
  | false =>
      obtain ⟨c, rest, htext, hc⟩ := h.head
      exact ⟨c, rest, htext, .inl hc⟩

end Figures

theorem Leads.not_space {c : Char} (h : Leads c) : isSpace c = false := by
  have hne : c ≠ ' ' ∧ c ≠ '\n' ∧ c ≠ '\t' ∧ c ≠ '\r' := by
    refine ⟨?_, ?_, ?_, ?_⟩ <;> rintro rfl <;> simp [Leads] at h
  simp [isSpace, hne]

theorem numberOf?_of_scanNumeral {text : String} {numeral : Numeral} {n : Number} {c : Char}
    {rest : List Char} {stop : Nat} (htext : text.toList = c :: rest) (hc : Leads c)
    (hscan : scanNumeral (c :: rest) 0 = .ok (numeral, [], stop))
    (hnumber : numeral.number stop = .ok n) : numberOf? text = some n := by
  have hvalue : scanValue (3 * text.toList.length + 3) 0 text.toList 0 =
      (.number ⟨0, numeral.number stop, none, stop⟩, [], stop) := by
    rw [htext, scanValue_numeral (skipSpace_cons hc.not_space rest 0) hc, scanNumber, hscan]
  obtain ⟨hroot, htrailing⟩ := scan_of_scanValue hvalue
  have hkeep : (scan text).root.keep = .ok (.number n) := by
    rw [hroot, Doc.keep, hnumber]
    rfl
  have hok : ofText text = .ok (.number n) := ofText_eq_ok_iff.2 ⟨hkeep, htrailing.2 ⟨stop, rfl⟩⟩
  rw [numberOf?, hok]

-- What is printed is read by itself as the number it was printed from.
theorem Figures.numberOf?_text {figures : Figures} (h : figures.Sound) {negative : Bool}
    {n : Number} (hnumber : ∀ stop, (figures.numeral negative).number stop = .ok n) :
    numberOf? (String.ofList (signText negative ++ figures.text)) = some n := by
  obtain ⟨c, rest, hchars, hc⟩ := text_leads h negative
  obtain ⟨stop, hscan⟩ := scanNumeral_text h negative 0
  rw [hchars] at hscan
  exact numberOf?_of_scanNumeral (String.toList_ofList.trans hchars) hc hscan (hnumber stop)

theorem valueOf_map (cs : List Char) : valueOf (cs.map digitValue) = Nat.ofDigitChars 10 cs 0 := by
  rw [valueOf, List.foldl_map, Nat.ofDigitChars_eq_foldl]
  congr 1
  funext n c
  rw [Nat.mul_comm n]
  rfl

theorem valueOf_toDigits (n : Nat) : valueOf ((Nat.toDigits 10 n).map digitValue) = n := by
  rw [valueOf_map, Nat.ofDigitChars_toDigits (by decide) (by decide)]

namespace Figures

variable {d : Decimal.Numeral}

-- The digits of a number, and the digits of its exponent.
def digitsOf (n : Nat) : List Char := Nat.toDigits 10 n

def powerOf : Int → Bool × List Char
  | .ofNat n => (false, digitsOf n)
  | .negSucc n => (true, digitsOf (n + 1))

def positional (d : Decimal.Numeral) : Figures :=
  if 0 ≤ d.exponent then
    ⟨digitsOf d.digits ++ List.replicate d.exponent.toNat '0', ['0'], none⟩
  else if d.point ≤ 0 then
    ⟨['0'], List.replicate (-d.point).toNat '0' ++ digitsOf d.digits, none⟩
  else
    ⟨(digitsOf d.digits).take d.point.toNat, (digitsOf d.digits).drop d.point.toNat, none⟩

def scientific (d : Decimal.Numeral) : Figures :=
  ⟨(digitsOf d.digits).take 1, (digitsOf d.digits).drop 1, some (powerOf (d.point - 1))⟩

def ofNumeral (d : Decimal.Numeral) : Figures :=
  if -4 ≤ d.point ∧ d.point ≤ 16 then positional d else scientific d

theorem toList_text (d : Decimal.Numeral) : d.text.toList = digitsOf d.digits := Nat.toList_repr

theorem point_eq (d : Decimal.Numeral) : d.point = (digitsOf d.digits).length + d.exponent := by
  rw [← toList_text, String.length_toList]
  rfl

-- A positional number always has a fraction.
theorem fraction_positional (d : Decimal.Numeral) : (positional d).fraction ≠ [] := by
  have hpoint := point_eq d
  have hne : digitsOf d.digits ≠ [] := Nat.toDigits_ne_nil
  unfold positional
  split
  case isTrue => simp
  case isFalse =>
      split
      case isTrue => simp [hne]
      case isFalse => exact mt List.drop_eq_nil_iff.1 (by omega)

theorem toList_positional (d : Decimal.Numeral) :
    (Decimal.positionalText true d).toList = (positional d).text := by
  have hne := fraction_positional d
  rw [text, fractionText, if_neg hne]
  unfold Decimal.positionalText positional
  dsimp only
  split
  case isTrue hexponent => simp [exponentText, toList_text, Decimal.zeros]
  case isFalse hexponent =>
      split
      case isTrue hleast => simp [exponentText, toList_text, Decimal.zeros]
      case isFalse hleast => simp [exponentText, toList_text]

theorem toList_power (power : Int) :
    ((if 0 ≤ power then "+" else "") ++ toString power).toList =
      (if (powerOf power).1 then '-' else '+') :: (powerOf power).2 := by
  cases power with
  | ofNat n =>
      have hpos : 0 ≤ Int.ofNat n := Int.natCast_nonneg n
      have htext : (toString (Int.ofNat n)).toList = digitsOf n := Nat.toList_repr
      simp only [powerOf, hpos, ↓reduceIte, String.toList_append, htext]
      rfl
  | negSucc n =>
      have hneg : ¬0 ≤ Int.negSucc n := by omega
      have htext : (toString (Int.negSucc n)).toList = '-' :: digitsOf (n + 1) := by
        change ("-" ++ Nat.repr (n + 1)).toList = _
        rw [String.toList_append, Nat.toList_repr]
        rfl
      simp only [powerOf, hneg, ↓reduceIte, String.toList_append, htext]
      rfl

theorem toList_scientific (d : Decimal.Numeral) :
    (Decimal.exponentText true d).toList = (scientific d).text := by
  have hpower := toList_power (d.point - 1)
  have hne : digitsOf d.digits ≠ [] := Nat.toDigits_ne_nil
  unfold Decimal.exponentText scientific
  dsimp only
  rw [Bool.true_and, toList_text]
  simp only [decide_eq_true_eq]
  rw [String.append_assoc, String.append_assoc, String.toList_append, String.toList_append, hpower]
  cases hdigits : digitsOf d.digits with
  | nil => contradiction
  | cons c rest =>
      cases rest <;> simp [text, fractionText, exponentText]

-- A double is printed with these characters.
theorem toList_positive (d : Decimal.Numeral) :
    (Decimal.Layout.json.positive d).toList = (ofNumeral d).text := by
  unfold Decimal.Layout.positive ofNumeral
  dsimp only [Decimal.Layout.json]
  split
  · exact toList_positional d
  · exact toList_scientific d

theorem isDigit_of_mem_digitsOf {n : Nat} : ∀ c ∈ digitsOf n, c.isDigit = true :=
  fun _ hc => Nat.isDigit_of_mem_toDigits (by decide) (by decide) hc

theorem digitValue_le {c : Char} (hc : c.isDigit = true) : digitValue c ≤ 9 := by
  simp only [Char.isDigit, Bool.and_eq_true, decide_eq_true_eq] at hc
  have hle : c.toNat ≤ 57 := hc.2
  unfold digitValue
  omega

theorem valueOf_lt {digits : List Char} (hdigits : ∀ c ∈ digits, c.isDigit = true) :
    valueOf (digits.map digitValue) < 10 ^ digits.length := by
  have hle : ∀ d ∈ digits.map digitValue, d ≤ 9 := by
    intro d hd
    obtain ⟨c, hc, rfl⟩ := List.mem_map.1 hd
    exact digitValue_le (hdigits c hc)
  have hone : 0 < 10 ^ 0 := Nat.one_pos
  have hlt := valueFrom_lt hle hone
  rwa [List.length_map, Nat.zero_add] at hlt

-- The digits would be one too many.
theorem digitsOf_lead {n : Nat} (hn : 0 < n) : ∃ c rest, digitsOf n = c :: rest ∧ c ≠ '0' := by
  cases hdigits : digitsOf n with
  | nil => exact absurd hdigits Nat.toDigits_ne_nil
  | cons c rest =>
      refine ⟨c, rest, rfl, ?_⟩
      rintro rfl
      have hrest : ∀ c ∈ rest, c.isDigit = true := fun c hc =>
        isDigit_of_mem_digitsOf c (hdigits ▸ List.mem_cons_of_mem _ hc)
      have hvalue : valueOf (('0' :: rest).map digitValue) = n := hdigits ▸ valueOf_toDigits n
      have hlt : n < 10 ^ rest.length := hvalue ▸ valueOf_lt hrest
      have hpos : 0 < rest.length := by
        by_contra hnone
        rw [Nat.eq_zero_of_not_pos hnone] at hlt
        omega
      have hlength := (Nat.length_toDigits_le_iff (by decide) hpos).2 hlt
      change (digitsOf n).length ≤ rest.length at hlength
      rw [hdigits, List.length_cons] at hlength
      exact Nat.lt_irrefl _ hlength

theorem sound_ofNumeral (hd : 0 < d.digits) : (ofNumeral d).Sound := by
  obtain ⟨c, rest, hdigits, hc⟩ := digitsOf_lead hd
  have hall : ∀ c ∈ digitsOf d.digits, c.isDigit = true := isDigit_of_mem_digitsOf
  have hzeros (n : Nat) : ∀ c ∈ List.replicate n '0', c.isDigit = true :=
    fun c hc => List.eq_of_mem_replicate hc ▸ rfl
  unfold ofNumeral
  split
  case isTrue hpositional =>
      unfold positional
      split
      case isTrue =>
          refine ⟨?_, .inr ⟨c, rest ++ List.replicate d.exponent.toNat '0', by simp [hdigits], hc⟩,
            ?_, by simp⟩
          · exact fun c hc => (List.mem_append.1 hc).elim (hall c) (hzeros _ c)
          · exact fun c hc => List.mem_singleton.1 hc ▸ rfl
      case isFalse =>
          split
          case isTrue =>
              refine ⟨?_, .inl rfl, ?_, by simp⟩
              · exact fun c hc => List.mem_singleton.1 hc ▸ rfl
              · exact fun c hc => (List.mem_append.1 hc).elim (hzeros _ c) (hall c)
          case isFalse hleast =>
              obtain ⟨k, hk⟩ : ∃ k, d.point.toNat = k + 1 := ⟨d.point.toNat - 1, by omega⟩
              refine ⟨?_, .inr ⟨c, rest.take k, by simp [hdigits, hk], hc⟩, ?_, by simp⟩
              · exact fun c hc => hall c (List.mem_of_mem_take hc)
              · exact fun c hc => hall c (List.mem_of_mem_drop hc)
  case isFalse =>
      refine ⟨fun c hc => hall c (List.mem_of_mem_take hc),
        .inr ⟨c, [], by simp [scientific, hdigits], hc⟩,
        fun c hc => hall c (List.mem_of_mem_drop hc), ?_⟩
      intro power hpower
      obtain rfl := Option.some_inj.1 hpower
      cases d.point - 1 with
      | ofNat n => exact ⟨Nat.toDigits_ne_nil, isDigit_of_mem_digitsOf⟩
      | negSucc n => exact ⟨Nat.toDigits_ne_nil, isDigit_of_mem_digitsOf⟩

theorem numeral_value (negative : Bool) (figures : Figures) : (figures.numeral negative).value =
    Nat.ofDigitChars 10 (figures.whole ++ figures.fraction) 0 *
      10 ^ ((figures.numeral negative).power - figures.fraction.length) := by
  rw [Numeral.value]
  simp only [numeral, ← List.map_append, valueOf_map, List.length_map]

theorem power_scientific (negative : Bool) (d : Decimal.Numeral) :
    ((scientific d).numeral negative).power = d.point - 1 := by
  simp only [Numeral.power, numeral, scientific, Option.map_some]
  cases d.point - 1 with
  | ofNat n => exact congrArg Int.ofNat (valueOf_toDigits n)
  | negSucc n => exact congrArg (fun n : Nat => -(n : Int)) (valueOf_toDigits (n + 1))

theorem value_whole {negative : Bool} {figures : Figures} (h : figures.exponent = none) :
    (figures.numeral negative).value = Nat.ofDigitChars 10 (figures.whole ++ figures.fraction) 0 *
      10 ^ (-figures.fraction.length : Int) := by
  rw [numeral_value, Numeral.power, numeral, h]
  simp

theorem value_positional (negative : Bool) (d : Decimal.Numeral) :
    ((positional d).numeral negative).value = d.value := by
  have hpoint := point_eq d
  have hten : (10 : ℚ) ≠ 0 := by norm_num
  have hdigits : Nat.ofDigitChars 10 (digitsOf d.digits) 0 = d.digits :=
    Nat.ofDigitChars_toDigits (by decide) (by decide)
  unfold positional
  split
  case isTrue hexponent =>
      have hpower : (10 : ℚ) ^ d.exponent = 10 ^ d.exponent.toNat := by
        rw [← zpow_natCast, Int.toNat_of_nonneg hexponent]
      have hall : Nat.ofDigitChars 10 (digitsOf d.digits ++ List.replicate d.exponent.toNat '0' ++
          ['0']) 0 = d.digits * 10 ^ d.exponent.toNat * 10 := by
        rw [Nat.ofDigitChars_append, Nat.ofDigitChars_append, hdigits,
          Nat.ofDigitChars_replicate_zero, Nat.mul_comm d.digits, Nat.mul_comm _ 10]
        rfl
      rw [value_whole rfl, Decimal.Numeral.value, hpower, hall]
      push_cast
      exact mul_inv_cancel_right₀ hten _
  case isFalse hexponent =>
      split
      case isTrue hleast =>
          have hall : Nat.ofDigitChars 10 (['0'] ++ (List.replicate (-d.point).toNat '0' ++
              digitsOf d.digits)) 0 = d.digits := by
            rw [Nat.ofDigitChars_append, Nat.ofDigitChars_append, Nat.ofDigitChars_replicate_zero]
            exact hdigits
          have hlength :
              -((List.replicate (-d.point).toNat '0' ++ digitsOf d.digits).length : Int) =
                d.exponent := by
            rw [List.length_append, List.length_replicate]
            omega
          rw [value_whole rfl, Decimal.Numeral.value, hall, hlength]
      case isFalse hleast =>
          have hlength : -(((digitsOf d.digits).drop d.point.toNat).length : Int) = d.exponent := by
            rw [List.length_drop]
            omega
          rw [value_whole rfl, Decimal.Numeral.value, List.take_append_drop, hdigits, hlength]

theorem value_ofNumeral (negative : Bool) (d : Decimal.Numeral) :
    ((ofNumeral d).numeral negative).value = d.value := by
  have hpoint := point_eq d
  have hdigits : Nat.ofDigitChars 10 (digitsOf d.digits) 0 = d.digits :=
    Nat.ofDigitChars_toDigits (by decide) (by decide)
  unfold ofNumeral
  split
  case isTrue => exact value_positional negative d
  case isFalse =>
      have hexponent : d.point - 1 - (scientific d).fraction.length = d.exponent := by
        have hpos : 0 < (digitsOf d.digits).length := Nat.length_toDigits_pos
        simp only [scientific, List.length_drop]
        omega
      rw [numeral_value, power_scientific, hexponent, Decimal.Numeral.value]
      simp only [scientific, List.take_append_drop, hdigits]

theorem whole_length_le (d : Decimal.Numeral) : (ofNumeral d).whole.length ≤ 16 := by
  have hpoint := point_eq d
  unfold ofNumeral
  split
  case isTrue hpositional =>
      unfold positional
      split
      · simp only [List.length_append, List.length_replicate]
        omega
      · split
        · exact (by decide : 1 ≤ 16)
        · exact Nat.le_trans (List.length_take_le _ _) (by omega)
  case isFalse => exact Nat.le_trans (List.length_take_le _ _) (by decide)

theorem whole_le {negative : Bool} (hd : 0 < d.digits) :
    valueOf ((ofNumeral d).numeral negative).whole ≤ wordLimit :=
  Nat.le_of_lt (calc
    valueOf ((ofNumeral d).whole.map digitValue) < 10 ^ (ofNumeral d).whole.length :=
        valueOf_lt (sound_ofNumeral hd).whole
    _ ≤ 10 ^ 16 := Nat.pow_le_pow_right (by decide) (whole_length_le d)
    _ ≤ wordLimit := by decide)

theorem pow_le_value (hd : 0 < d.digits) : 10 ^ (d.point - 1) ≤ d.value := by
  have hten : (10 : ℚ) ≠ 0 := by norm_num
  obtain ⟨k, hk⟩ : ∃ k, (digitsOf d.digits).length = k + 1 :=
    ⟨(digitsOf d.digits).length - 1, (Nat.succ_pred_eq_of_pos Nat.length_toDigits_pos).symm⟩
  have hdigits : 10 ^ k ≤ d.digits := by
    cases k with
    | zero => exact hd
    | succ k =>
        by_contra hlt
        have hlength := (Nat.length_toDigits_le_iff (by decide) k.succ_pos).2 (Nat.not_le.1 hlt)
        change (digitsOf d.digits).length ≤ k + 1 at hlength
        omega
  have hpoint : d.point - 1 = k + d.exponent := by
    rw [point_eq, hk]
    push_cast
    omega
  rw [hpoint, zpow_add₀ hten, zpow_natCast, Decimal.Numeral.value]
  exact mul_le_mul_of_nonneg_right (by exact_mod_cast hdigits) (by positivity)

theorem power_le {negative : Bool} (hd : 0 < d.digits) (hsafe : d.value ≤ safeLimit) :
    ((ofNumeral d).numeral negative).power ≤ exponentLimit := by
  have hlimit : exponentLimit = 0x7FFFFFFF := rfl
  have hgreatest : greatestPower = 308 := rfl
  unfold ofNumeral
  split
  case isTrue hpositional =>
      have hnone : (positional d).exponent = none := by
        unfold positional
        split
        · rfl
        · split <;> rfl
      rw [Numeral.power, numeral, hnone]
      exact Int.natCast_nonneg _
  case isFalse =>
      rw [power_scientific]
      by_contra hover
      obtain ⟨power, hpower⟩ : ∃ power : Nat, d.point - 1 = power :=
        ⟨(d.point - 1).toNat, by omega⟩
      have hvalue : ((10 ^ power : Nat) : ℚ) ≤ safeLimit := by
        push_cast
        rw [← zpow_natCast, ← hpower]
        exact (pow_le_value hd).trans hsafe
      have hgreat : safeLimit < 10 ^ power := safeLimit_lt (by omega)
      exact Nat.lt_irrefl _ (Nat.lt_of_lt_of_le hgreat (Nat.cast_le.1 hvalue))

theorem number_ofNumeral (negative : Bool) (d : Decimal.Numeral) (stop : Nat) :
    ((ofNumeral d).numeral negative).number stop = ((ofNumeral d).numeral negative).real stop := by
  have hreal : ¬(((ofNumeral d).numeral negative).fraction.isEmpty ∧
      ((ofNumeral d).numeral negative).exponent.isNone) := by
    rintro ⟨hfraction, hexponent⟩
    unfold ofNumeral at hfraction hexponent
    split at hfraction
    case isTrue =>
        exact fraction_positional d (List.map_eq_nil_iff.1 (List.isEmpty_iff.1 hfraction))
    case isFalse hscientific =>
        rw [if_neg hscientific] at hexponent
        cases hexponent
  rw [Numeral.number]
  dsimp only
  rw [if_neg fun h => hreal ⟨h.1, h.2.1⟩]

-- A positive number that is printed is read, unless it is too great.
theorem numberOf?_positive (hd : 0 < d.digits) (hsafe : d.value ≤ safeLimit) (negative : Bool) :
    ∃ y, numberOf? (String.ofList (signText negative ++ (Decimal.Layout.json.positive d).toList)) =
      some (.real y) ∧ Sized (signOf negative) y.toModel.unpack := by
  have hvalue : ((ofNumeral d).numeral negative).value ≤ safeLimit :=
    (value_ofNumeral negative d).trans_le hsafe
  obtain ⟨y, hy⟩ := Numeral.exists_real (whole_le hd) (power_le hd hsafe) hvalue 0
  have hnumber : ∀ stop, ((ofNumeral d).numeral negative).number stop = .ok (.real y) := by
    intro stop
    rw [number_ofNumeral]
    exact Numeral.real_moved hy stop
  have hsized := Numeral.sized_real hy
  refine ⟨y, ?_, hsized⟩
  rw [toList_positive]
  exact numberOf?_text (sound_ofNumeral hd) hnumber

end Figures

end Patchbay.Json
