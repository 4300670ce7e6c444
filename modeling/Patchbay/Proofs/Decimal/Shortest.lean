import Mathlib.Algebra.Order.Field.Power
import Mathlib.Data.Rat.Cast.Order
import Mathlib.Tactic.Ring
import Mathlib.Tactic.FieldSimp
import Mathlib.Tactic.Positivity
import Patchbay.Decimal.Layout

namespace Patchbay.Decimal

def Numeral.value (d : Numeral) : ℚ := d.digits * 10 ^ d.exponent

-- The greatest value that the double stands for.
def Binary.upper (x : Binary) : ℚ := (4 * x.significand + 2) * 2 ^ (x.exponent - 2)

theorem zpow_split {b : ℚ} (hb : b ≠ 0) (i : Int) : b ^ i = b ^ i.toNat / b ^ (-i).toNat := by
  rw [← zpow_natCast, ← zpow_natCast, ← zpow_sub₀ hb]
  congr 1
  omega

theorem le_of_compareScaled {a b : Nat} {i j : Int} (h : Binary.compareScaled a i b j ≠ .gt) :
    (a : ℚ) * 10 ^ i ≤ b * 2 ^ j := by
  have hle : a * 10 ^ i.toNat * 2 ^ (-j).toNat ≤ b * 2 ^ j.toNat * 10 ^ (-i).toNat :=
    Nat.not_lt.1 fun hlt => h (Nat.compare_eq_gt.2 hlt)
  have hten : (10 : ℚ) ≠ 0 := by norm_num
  have htwo : (2 : ℚ) ≠ 0 := by norm_num
  rw [zpow_split hten, zpow_split htwo, mul_div_assoc', mul_div_assoc',
    div_le_div_iff₀ (by positivity) (by positivity)]
  exact_mod_cast hle

namespace Binary

variable {x : Binary} {d : Numeral}

theorem le_upper_of_readsBack (h : x.readsBack d = true) : d.value ≤ x.upper := by
  have hhigh :
      compareScaled d.digits d.exponent (4 * x.significand + 2) (x.exponent - 2) ≠ .gt := by
    intro hgt
    simp [readsBack, hgt] at h
  have hle := le_of_compareScaled hhigh
  push_cast at hle
  exact hle

theorem pos_of_readsBack (hx : 0 < x.significand) (h : x.readsBack d = true) : 0 < d.digits := by
  apply Nat.pos_of_ne_zero
  intro hzero
  have hlow : compareScaled d.digits d.exponent
      (4 * x.significand - if x.narrowBelow then 1 else 2) (x.exponent - 2) = .lt := by
    unfold compareScaled
    rw [hzero, Nat.zero_mul, Nat.zero_mul]
    refine Nat.compare_eq_lt.2
      (Nat.mul_pos (Nat.mul_pos ?_ (Nat.two_pow_pos _)) (Nat.pow_pos (by decide)))
    split <;> omega
  simp [readsBack, hlow] at h

theorem readsBack_of_candidate {tie : Tie} {grid : Int} (h : x.candidate tie grid = some d) :
    x.readsBack d = true := by
  unfold candidate at h
  dsimp only at h
  split at h
  case h_1 hlower _ => exact Option.some_inj.1 h ▸ hlower
  case h_2 _ hupper => exact Option.some_inj.1 h ▸ hupper
  case h_3 => cases h
  case h_4 hlower hupper =>
      split at h
      · exact Option.some_inj.1 h ▸ hlower
      · exact Option.some_inj.1 h ▸ hupper
      · split at h
        · exact Option.some_inj.1 h ▸ hlower
        · exact Option.some_inj.1 h ▸ hupper

end Binary

theorem Numeral.strip_pos {fuel : Nat} {d : Numeral} (h : 0 < d.digits) :
    0 < (strip fuel d).digits := by
  induction fuel generalizing d with
  | zero => exact h
  | succ fuel ih =>
      rw [strip]
      split
      case isTrue hzero =>
          apply ih
          dsimp only
          omega
      case isFalse => exact h

theorem Numeral.strip_value (fuel : Nat) (d : Numeral) : (strip fuel d).value = d.value := by
  induction fuel generalizing d with
  | zero => rfl
  | succ fuel ih =>
      rw [strip]
      split
      case isTrue hzero =>
          have hten : (10 : ℚ) ≠ 0 := by norm_num
          have hdigits : d.digits = d.digits / 10 * 10 := by omega
          rw [ih]
          unfold value
          conv_rhs => rw [hdigits]
          push_cast
          rw [zpow_add_one₀ hten]
          ring
      case isFalse => rfl

theorem shortest_pos {x : Binary} (hx : 0 < x.significand) (tie : Tie) :
    0 < (shortest tie x).digits := by
  unfold shortest
  dsimp only
  split
  case h_1 d hfound =>
      obtain ⟨n, -, hn⟩ := List.exists_of_findSome?_eq_some hfound
      exact Numeral.strip_pos (Binary.pos_of_readsBack hx (Binary.readsBack_of_candidate hn))
  case h_2 => exact Nat.mul_pos (Nat.mul_pos hx (Nat.two_pow_pos _)) (Nat.pow_pos (by decide))

-- Digit for digit it is the value itself.
theorem exact_value (x : Binary) :
    Numeral.value ⟨x.significand * Nat.pow 2 x.exponent.toNat * Nat.pow 5 (-x.exponent).toNat,
      min 0 x.exponent⟩ = x.significand * 2 ^ x.exponent := by
  have hfive : (5 : ℚ) ^ (-x.exponent).toNat * 10 ^ min 0 x.exponent =
      1 / 2 ^ (-x.exponent).toNat := by
    have hexponent : min 0 x.exponent = -((-x.exponent).toNat : Int) := by omega
    rw [hexponent, zpow_neg, zpow_natCast, show (10 : ℚ) = 2 * 5 by norm_num, mul_pow]
    field_simp
  unfold Numeral.value
  change (((x.significand * 2 ^ x.exponent.toNat * 5 ^ (-x.exponent).toNat : Nat) : ℚ)) *
    10 ^ min 0 x.exponent = _
  push_cast
  rw [mul_assoc, hfive, zpow_split (by norm_num : (2 : ℚ) ≠ 0)]
  ring

theorem shortest_le_upper (tie : Tie) (x : Binary) : (shortest tie x).value ≤ x.upper := by
  unfold shortest
  dsimp only
  split
  case h_1 d hfound =>
      obtain ⟨n, -, hn⟩ := List.exists_of_findSome?_eq_some hfound
      rw [Numeral.strip_value]
      exact Binary.le_upper_of_readsBack (Binary.readsBack_of_candidate hn)
  case h_2 =>
      have htwo : (2 : ℚ) ^ x.exponent = 2 ^ (x.exponent - 2) * 4 := by
        rw [zpow_sub₀ (by norm_num)]
        norm_num
      have hpos : (0 : ℚ) ≤ 2 ^ (x.exponent - 2) := by positivity
      rw [exact_value, htwo, Binary.upper, mul_comm _ (4 : ℚ), ← mul_assoc, mul_comm _ (4 : ℚ)]
      exact mul_le_mul_of_nonneg_right (le_add_of_nonneg_right (by norm_num)) hpos

end Patchbay.Decimal
