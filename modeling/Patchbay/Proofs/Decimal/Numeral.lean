import Mathlib.Algebra.Order.Field.Power
import Mathlib.Data.Rat.Cast.Order
import Mathlib.Tactic.Ring
import Mathlib.Tactic.Positivity
import Patchbay.Proofs.Float.PowersOfTen

namespace Patchbay.Json

open Float.Model (UnpackedFloat)
open Float.Model.UnpackedFloat

-- The number that some digits and more of them after it stand for.
def valueFrom (n : Nat) (digits : List Nat) : Nat := digits.foldl (fun n d => n * 10 + d) n

theorem le_valueFrom (n : Nat) (digits : List Nat) : n ≤ valueFrom n digits := by
  induction digits generalizing n with
  | nil => exact Nat.le_refl n
  | cons d rest ih => exact Nat.le_trans (by omega) (ih (n * 10 + d))

theorem absorb_of_le {n : Nat} {digits : List Nat} (h : valueFrom n digits ≤ wordLimit) :
    absorb n digits = (valueFrom n digits, []) := by
  induction digits generalizing n with
  | nil => rfl
  | cons d rest ih =>
      have hnext : n * 10 + d ≤ wordLimit := Nat.le_trans (le_valueFrom _ rest) h
      rw [absorb, if_pos hnext]
      exact ih h

theorem absorb_le {n : Nat} (digits : List Nat) (h : n ≤ wordLimit) :
    (absorb n digits).1 ≤ wordLimit := by
  induction digits generalizing n with
  | nil => exact h
  | cons d rest ih =>
      rw [absorb]
      split
      case isTrue hnext => exact ih hnext
      case isFalse => exact h

theorem mul_pow_le_valueFrom (n : Nat) (digits : List Nat) :
    n * 10 ^ digits.length ≤ valueFrom n digits := by
  induction digits generalizing n with
  | nil => exact Nat.le_of_eq (Nat.mul_one n)
  | cons d rest ih =>
      calc n * 10 ^ (rest.length + 1) = n * 10 * 10 ^ rest.length := by ring
        _ ≤ (n * 10 + d) * 10 ^ rest.length := Nat.mul_le_mul_right _ (Nat.le_add_right _ _)
        _ ≤ valueFrom n (d :: rest) := ih (n * 10 + d)

theorem valueFrom_lt {n k : Nat} {digits : List Nat} (hdigits : ∀ d ∈ digits, d ≤ 9)
    (hn : n < 10 ^ k) : valueFrom n digits < 10 ^ (k + digits.length) := by
  induction digits generalizing n k with
  | nil => exact hn
  | cons d rest ih =>
      rw [List.forall_mem_cons] at hdigits
      have hnext : n * 10 + d < 10 ^ (k + 1) := by
        rw [Nat.pow_succ]
        omega
      have hrest := ih hdigits.2 hnext
      rwa [Nat.add_right_comm, Nat.add_assoc] at hrest

-- What is left of the digits only makes the number greater.
theorem absorb_value (n : Nat) (digits : List Nat) :
    (absorb n digits).1 * 10 ^ (absorb n digits).2.length ≤ valueFrom n digits ∧
      (absorb n digits).2.length ≤ digits.length := by
  induction digits generalizing n with
  | nil => exact ⟨by rw [absorb]; simp [valueFrom], Nat.le_refl 0⟩
  | cons d rest ih =>
      rw [absorb]
      split
      case isTrue =>
          obtain ⟨hvalue, hlength⟩ := ih (n * 10 + d)
          exact ⟨hvalue, Nat.le_succ_of_le hlength⟩
      case isFalse =>
          exact ⟨mul_pow_le_valueFrom n (d :: rest), Nat.le_refl _⟩

theorem overflowLength_of_le {n : Nat} {digits : List Nat}
    (h : valueFrom n digits ≤ exponentLimit) :
    overflowLength n digits = none := by
  induction digits generalizing n with
  | nil => rfl
  | cons d rest ih =>
      have hnext : n * 10 + d ≤ exponentLimit := Nat.le_trans (le_valueFrom _ rest) h
      rw [overflowLength, if_pos hnext, ih h]
      rfl

def signOf (negative : Bool) : Sign := if negative then .negative else .positive

theorem sized_neg {s : Sign} {x : Float} (h : Sized s x.toModel.unpack) :
    Sized (-s) (-x).toModel.unpack := by
  change Sized (-s) (Float.Model.pack x.toModel.unpack.neg).unpack
  obtain hzero | ⟨m, e, hm, hfinite⟩ := h
  · rw [hzero]
    exact sized_zero (-s)
  · rw [hfinite]
    exact sized_pack hm (Time.canonical_of_unpack hfinite).2

theorem sized_signed {x : Float} (negative : Bool) (h : Sized .positive x.toModel.unpack) :
    Sized (signOf negative) (signed negative x).toModel.unpack := by
  cases negative with
  | false => exact h
  | true => exact sized_neg h

namespace Numeral

variable {numeral : Numeral} {stop : Nat} {n : Number}

theorem sized_integer (negative : Bool) {n : Nat} (h : n ≤ wordLimit) :
    Sized (signOf negative) (Numeral.integer negative n).toFloat.toModel.unpack := by
  have hofNat := sized_ofNat h
  cases negative with
  | false => exact hofNat
  | true =>
      unfold Numeral.integer
      rw [if_pos rfl]
      split
      · exact sized_neg hofNat
      · exact sized_neg hofNat

theorem sized_real (h : numeral.real stop = .ok n) :
    Sized (signOf numeral.negative) n.toFloat.toModel.unpack := by
  have hword : (absorb (absorb 0 numeral.whole).1 numeral.fraction).1 ≤ wordLimit :=
    absorb_le _ (absorb_le _ (Nat.zero_le _))
  unfold Numeral.real at h
  dsimp only at h
  split at h
  case h_1 =>
      split at h
      case h_1 x hx =>
          obtain rfl := Except.ok.inj h
          exact sized_signed _ (sized_scaled hword hx)
      case h_2 => cases h
  case h_2 below digits hexponent =>
      split at h
      case h_1 =>
          split at h
          case isTrue => cases h
          case isFalse =>
              obtain rfl := Except.ok.inj h
              exact sized_signed _ (.inl rfl)
      case h_2 =>
          split at h
          case h_1 x hx =>
              obtain rfl := Except.ok.inj h
              exact sized_signed _ (sized_scaled hword hx)
          case h_2 => cases h

-- Every number that is read is finite, and has a minus only if one is written.
theorem sized_number (h : numeral.number stop = .ok n) :
    Sized (signOf numeral.negative) n.toFloat.toModel.unpack := by
  unfold Numeral.number at h
  dsimp only at h
  split at h
  case isTrue =>
      obtain rfl := Except.ok.inj h
      exact sized_integer _ (absorb_le _ (Nat.zero_le _))
  case isFalse => exact sized_real h

-- The power of ten that is written after the digits.
def power (numeral : Numeral) : Int :=
  match numeral.exponent with
  | none => 0
  | some (true, digits) => -valueOf digits
  | some (false, digits) => valueOf digits

-- The number that is written, but for its sign.
def value (numeral : Numeral) : ℚ :=
  valueOf (numeral.whole ++ numeral.fraction) * 10 ^ (numeral.power - numeral.fraction.length)

-- What is left out of the significand makes the number no greater than it is.
theorem significand_le {numeral : Numeral} {above : Nat} (h : numeral.value ≤ safeLimit)
    (habove : ((0 : Nat) : Int) - (numeral.fraction.length -
      (absorb (valueOf numeral.whole) numeral.fraction).2.length : Nat) + numeral.power = above) :
    (absorb (valueOf numeral.whole) numeral.fraction).1 * 10 ^ above ≤ safeLimit := by
  obtain ⟨hvalue, hlength⟩ := absorb_value (valueOf numeral.whole) numeral.fraction
  have hvalues : valueFrom (valueOf numeral.whole) numeral.fraction =
      valueOf (numeral.whole ++ numeral.fraction) := (List.foldl_append ..).symm
  rw [hvalues] at hvalue
  generalize absorb (valueOf numeral.whole) numeral.fraction = absorbed at hvalue hlength habove ⊢
  have hten : (10 : ℚ) ≠ 0 := by norm_num
  have hpower : numeral.power - numeral.fraction.length = above - absorbed.2.length := by omega
  have hpos : (0 : ℚ) < 10 ^ absorbed.2.length := by positivity
  rw [value, hpower, zpow_sub₀ hten, zpow_natCast, zpow_natCast, mul_div_assoc',
    div_le_iff₀ hpos] at h
  have hle : ((absorbed.1 * 10 ^ absorbed.2.length : Nat) : ℚ) * 10 ^ above ≤
      safeLimit * 10 ^ absorbed.2.length :=
    (mul_le_mul_of_nonneg_right (Nat.cast_le.2 hvalue) (by positivity)).trans h
  have hcast : absorbed.1 * 10 ^ above * 10 ^ absorbed.2.length ≤
      safeLimit * 10 ^ absorbed.2.length := by
    rw [Nat.mul_right_comm]
    exact_mod_cast hle
  exact Nat.le_of_mul_le_mul_right hcast (Nat.pow_pos (by decide))

-- A number that is not too great for a double is read.
theorem exists_real {numeral : Numeral} (hwhole : valueOf numeral.whole ≤ wordLimit)
    (hpower : numeral.power ≤ exponentLimit) (h : numeral.value ≤ safeLimit) (stop : Nat) :
    ∃ y, numeral.real stop = .ok (.real y) := by
  have hword : (absorb (valueOf numeral.whole) numeral.fraction).1 ≤ wordLimit := absorb_le _ hwhole
  have hsignificand (above : Nat) := @significand_le numeral above h
  have habsorb : absorb 0 numeral.whole = (valueOf numeral.whole, []) := absorb_of_le hwhole
  obtain ⟨negative, whole, fraction, exponent⟩ := numeral
  unfold Numeral.real
  dsimp only at habsorb hword hsignificand ⊢
  rw [habsorb]
  dsimp only [List.length_nil]
  split
  case h_1 =>
      obtain ⟨x, hx⟩ := exists_scaled hword fun above habove =>
        hsignificand above ((Int.add_zero _).trans habove)
      rw [hx]
      exact ⟨_, rfl⟩
  case h_2 below digits =>
      cases below with
      | true =>
          have hnot : ∀ n : Nat, ¬(n ≠ 0 ∧ ¬true = true) := fun n hn => hn.2 rfl
          split
          case h_1 read hread => exact ⟨_, if_neg (hnot _)⟩
          case h_2 hread =>
              obtain ⟨x, hx⟩ := exists_scaled hword hsignificand
              refine ⟨signed negative x, ?_⟩
              rw [if_pos rfl]
              exact hx ▸ rfl
      | false =>
          have hnone : overflowLength 0 digits = none :=
            overflowLength_of_le (Int.ofNat_le.1 hpower)
          rw [hnone]
          obtain ⟨x, hx⟩ := exists_scaled hword hsignificand
          refine ⟨signed negative x, ?_⟩
          rw [if_neg Bool.false_ne_true]
          exact hx ▸ rfl

end Numeral

end Patchbay.Json
