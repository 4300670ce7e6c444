import Patchbay.Time

namespace Patchbay.Time

open Float.Model (UnpackedFloat)

-- Infinities are beyond all exponents, and the two zeros are one.
def rank : UnpackedFloat → Option (Int × Int × Int)
  | .notANumber => none
  | .infinity .positive => some (2, 0, 0)
  | .finite .positive mantissa exponent _ => some (1, exponent, mantissa)
  | .zero _ => some (0, 0, 0)
  | .finite .negative mantissa exponent _ => some (-1, -exponent, -mantissa)
  | .infinity .negative => some (-2, 0, 0)

abbrev order : Int × Int × Int → Int × Int × Int → Ordering :=
  compareLex (compareOn Prod.fst)
    (compareLex (compareOn (Prod.fst ∘ Prod.snd)) (compareOn (Prod.snd ∘ Prod.snd)))

theorem compare_cast (m m' : Nat) : compare (m : Int) m' = compare m m' := by
  rw [Int.compare_eq_ite_lt, Nat.compare_eq_ite_lt]
  simp only [Int.ofNat_lt]

theorem compare_neg (x y : Int) : compare (-x) (-y) = (compare x y).swap := by
  rw [Int.compare_swap, Int.compare_eq_ite_lt, Int.compare_eq_ite_lt]
  simp only [Int.neg_lt_neg_iff]

-- It is only where both are finite and of one sign that exponents matter.
theorem compare_eq (a b : UnpackedFloat) :
    a.compare b = (rank a).bind fun x => (rank b).map (order x) := by
  rcases a with (_ | _) | _ | _ | ⟨_ | _, m, e, _⟩ <;>
    rcases b with (_ | _) | _ | _ | ⟨_ | _, m', e', _⟩ <;> try rfl
  case finite.negative.finite.negative =>
      change some ((compare e e').then (compare m m')).swap =
        some ((compare (-e) (-e')).then (compare (-(m : Int)) (-(m' : Int))))
      rw [compare_neg, compare_neg, compare_cast, Ordering.swap_then]
  case finite.positive.finite.positive =>
      change some ((compare e e').then (compare m m')) =
        some ((compare e e').then (compare (m : Int) m'))
      rw [compare_cast]

def place (x : Float) : Option (Int × Int × Int) := rank x.toModel.unpack

theorem isNaN_eq (x : Float) : x.isNaN = (place x).isNone := by
  change x.toModel.unpack.isNaN = (rank x.toModel.unpack).isNone
  rcases x.toModel.unpack with (_ | _) | _ | _ | ⟨_ | _, m, e, _⟩ <;> rfl

theorem compare_iff {x y : Float} {o : Ordering} :
    (x.toModel.unpack.compare y.toModel.unpack == some o) = true ↔
      ∃ a b, place x = some a ∧ place y = some b ∧ order a b = o := by
  rw [compare_eq, beq_iff_eq, Option.bind_eq_some_iff]
  simp only [Option.map_eq_some_iff]
  constructor
  · rintro ⟨a, hx, b, hy, hab⟩
    exact ⟨a, b, hx, hy, hab⟩
  · rintro ⟨a, b, hx, hy, hab⟩
    exact ⟨a, hx, b, hy, hab⟩

theorem lt_iff {x y : Float} :
    x < y ↔ ∃ a b, place x = some a ∧ place y = some b ∧ order a b = .lt := by
  change decide (x.toModel < y.toModel) = true ↔ _
  rw [decide_eq_true_iff]
  exact compare_iff

theorem beq_iff {x y : Float} :
    (x == y) = true ↔ ∃ a b, place x = some a ∧ place y = some b ∧ order a b = .eq :=
  compare_iff

theorem le_iff {x y : Float} :
    x ≤ y ↔ ∃ a b, place x = some a ∧ place y = some b ∧ (order a b).isLE = true := by
  change decide (x.toModel ≤ y.toModel) = true ↔ _
  rw [decide_eq_true_iff]
  change (x.toModel.unpack.compare y.toModel.unpack).any (·.isLE) = true ↔ _
  rw [compare_eq, Option.any_eq_true]
  simp only [Option.bind_eq_some_iff, Option.map_eq_some_iff]
  constructor
  · rintro ⟨_, ⟨a, hx, b, hy, rfl⟩, hab⟩
    exact ⟨a, b, hx, hy, hab⟩
  · rintro ⟨a, b, hx, hy, hab⟩
    exact ⟨_, ⟨a, hx, b, hy, rfl⟩, hab⟩

theorem le_self {x : Float} (h : x.isNaN = false) : x ≤ x := by
  rw [isNaN_eq, Option.isNone_eq_false_iff, Option.isSome_iff_exists] at h
  obtain ⟨a, ha⟩ := h
  exact le_iff.2 ⟨a, a, ha, ha, Std.ReflCmp.isLE_rfl⟩

theorem le_trans {x y z : Float} (h : x ≤ y) (h' : y ≤ z) : x ≤ z := by
  obtain ⟨a, b, hx, hy, hab⟩ := le_iff.1 h
  obtain ⟨b', c, hy', hz, hbc⟩ := le_iff.1 h'
  obtain rfl : b = b' := Option.some_inj.1 (hy.symm.trans hy')
  exact le_iff.2 ⟨a, c, hx, hz, Std.TransCmp.isLE_trans hab hbc⟩

theorem le_of_lt {x y : Float} (h : x < y) : x ≤ y := by
  obtain ⟨a, b, hx, hy, hab⟩ := lt_iff.1 h
  exact le_iff.2 ⟨a, b, hx, hy, by rw [hab]; rfl⟩

theorem not_le_of_lt {x y : Float} (h : x < y) : ¬y ≤ x := by
  intro h'
  obtain ⟨a, b, hx, hy, hab⟩ := lt_iff.1 h
  obtain ⟨b', a', hy', hx', hba⟩ := le_iff.1 h'
  obtain rfl : a = a' := Option.some_inj.1 (hx.symm.trans hx')
  obtain rfl : b = b' := Option.some_inj.1 (hy.symm.trans hy')
  rw [Std.OrientedCmp.gt_of_lt hab] at hba
  cases hba

-- What is compared is a number.
theorem numbers_of_le {x y : Float} (h : x ≤ y) : x.isNaN = false ∧ y.isNaN = false := by
  obtain ⟨a, b, hx, hy, -⟩ := le_iff.1 h
  rw [isNaN_eq, isNaN_eq, hx, hy]
  exact ⟨rfl, rfl⟩

theorem number_of_le {x y : Float} (h : x ≤ y) : y.isNaN = false := (numbers_of_le h).2

theorem le_of_not_lt {x y : Float} (hx : x.isNaN = false) (hy : y.isNaN = false) (h : ¬x < y) :
    y ≤ x := by
  rw [isNaN_eq, Option.isNone_eq_false_iff, Option.isSome_iff_exists] at hx hy
  obtain ⟨a, ha⟩ := hx
  obtain ⟨b, hb⟩ := hy
  have hab : order a b ≠ .lt := fun hab => h (lt_iff.2 ⟨a, b, ha, hb, hab⟩)
  exact le_iff.2 ⟨b, a, hb, ha, Std.OrientedCmp.isLE_of_isGE (Ordering.isGE_iff_ne_lt.2 hab)⟩

theorem now_le_later {now : Float} (time : Float) (h : now.isNaN = false) :
    now ≤ later now time := by
  unfold later
  rw [if_neg (Bool.eq_false_iff.1 h)]
  split
  case isTrue => exact le_self h
  case isFalse =>
      split
      case isTrue hlt => exact le_of_lt hlt
      case isFalse => exact le_self h

-- What a time has reached, the later of it and any other has reached too.
theorem le_later {x y : Float} (now : Float) (h : x ≤ y) : x ≤ later now y := by
  have hnumber := number_of_le h
  unfold later
  rw [if_neg (Bool.eq_false_iff.1 hnumber)]
  split
  case isTrue => exact h
  case isFalse hnow =>
      split
      case isTrue => exact h
      case isFalse hlt => exact le_trans h (le_of_not_lt (Bool.eq_false_iff.2 hnow) hnumber hlt)

theorem later_eq (x y : Float) : later x y = x ∨ later x y = y := by
  unfold later
  split
  · exact .inr rfl
  · split
    · exact .inl rfl
    · split <;> simp

theorem earlier_eq (x y : Float) : earlier x y = x ∨ earlier x y = y := by
  unfold earlier
  split
  · exact .inr rfl
  · split
    · exact .inl rfl
    · split <;> simp

theorem not_lt_of_lt {x y : Float} (h : x < y) : ¬y < x :=
  fun h' => not_le_of_lt h (le_of_lt h')

-- Neither of the two is before the earlier.
theorem not_lt_earlier (x y : Float) : ¬x < earlier x y ∧ ¬y < earlier x y := by
  have hself (z : Float) : ¬z < z := fun h => not_lt_of_lt h h
  unfold earlier
  split
  case isTrue hx => exact ⟨fun h => Bool.eq_false_iff.1 (numbers_of_le (le_of_lt h)).1 hx, hself y⟩
  case isFalse =>
      split
      case isTrue hy => exact ⟨hself x, fun h => Bool.eq_false_iff.1 (numbers_of_le (le_of_lt h)).1 hy⟩
      case isFalse =>
          split
          case isTrue h => exact ⟨not_lt_of_lt h, hself y⟩
          case isFalse h => exact ⟨hself x, h⟩

-- Once one of the two has come, the earlier has.
theorem earlier_le {x y t : Float} (h : x ≤ t ∨ y ≤ t) : earlier x y ≤ t := by
  unfold earlier
  split
  case isTrue hx => exact h.resolve_left fun h => Bool.eq_false_iff.1 (numbers_of_le h).1 hx
  case isFalse hx =>
      split
      case isTrue hy => exact h.resolve_right fun h => Bool.eq_false_iff.1 (numbers_of_le h).1 hy
      case isFalse hy =>
          split
          case isTrue hlt => exact h.elim (le_trans (le_of_lt hlt)) id
          case isFalse hlt =>
              have hle := le_of_not_lt (Bool.eq_false_iff.2 hy) (Bool.eq_false_iff.2 hx) hlt
              exact h.elim id (le_trans hle)

-- Below 0 it is set, and for one of the zeros.
def sign (x : Float) : Nat := if x.toBits >>> 63 == 1 then 0 else 1

theorem sign_eq (x : Float) : (x.toBits >>> 63 == 0) = !(x.toBits >>> 63 == 1) := by
  have hbit : (x.toBits >>> 63).toNat < 2 := by
    rw [UInt64.toNat_shiftRight]
    change x.toBits.toNat >>> 63 < 2
    have := x.toBits.toNat_lt
    rw [Nat.shiftRight_eq_div_pow]
    omega
  have hzero : (0 : UInt64).toNat = 0 := rfl
  have hone : (1 : UInt64).toNat = 1 := rfl
  rw [Bool.eq_iff_iff, Bool.not_eq_true', beq_eq_false_iff_ne, beq_iff_eq, Ne, ← UInt64.toNat_inj,
    ← UInt64.toNat_inj, hzero, hone]
  omega

section Places

variable {x y : Float} {a b : Int × Int × Int} (hx : place x = some a) (hy : place y = some b)
include hx hy

theorem lt_iff_order : x < y ↔ order a b = .lt := by simp [lt_iff, hx, hy]

theorem beq_iff_order : (x == y) = true ↔ order a b = .eq := by simp [beq_iff, hx, hy]

-- Numbers come in the order of their places, and zeros in that of their signs.
theorem precedes_iff :
    precedes x y = true ↔ (order a b).then (compare (sign x) (sign y)) = .lt := by
  have hsign : compare (sign x) (sign y) = .lt ↔
      (x.toBits >>> 63 == 1) = true ∧ (y.toBits >>> 63 == 0) = true := by
    rw [sign_eq, sign, sign]
    cases x.toBits >>> 63 == 1 <;> cases y.toBits >>> 63 == 1 <;> decide
  rw [precedes, Bool.or_eq_true, decide_eq_true_iff, Bool.and_eq_true, Bool.and_eq_true,
    lt_iff_order hx hy, beq_iff_order hx hy, and_assoc, ← hsign]
  cases order a b <;> simp

end Places

end Patchbay.Time
