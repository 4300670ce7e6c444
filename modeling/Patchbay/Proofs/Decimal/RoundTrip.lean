import Patchbay.Proofs.Decimal.Text

namespace Patchbay.Decimal

open Float.Model (UnpackedFloat Format)
open Float.Model.UnpackedFloat

def magnitude (x : Float) : UInt64 := x.toBits &&& 0x7FFFFFFFFFFFFFFF

theorem toNat_and_mask (a : UInt64) (k : Nat) (hk : k < 64) :
    (a &&& UInt64.ofNat (2 ^ k - 1)).toNat = a.toNat % 2 ^ k := by
  have hpow : 2 ^ k < 2 ^ 64 := Nat.pow_lt_pow_right (by decide) hk
  rw [UInt64.toNat_and, UInt64.toNat_ofNat', Nat.mod_eq_of_lt (by omega),
    Nat.and_two_pow_sub_one_eq_mod]

theorem toNat_magnitude (x : Float) : (magnitude x).toNat = x.toBits.toNat % 2 ^ 63 :=
  toNat_and_mask x.toBits 63 (by decide)

theorem toNat_fraction (bits : UInt64) :
    (bits &&& 0xFFFFFFFFFFFFF).toNat = bits.toNat % 2 ^ 52 :=
  toNat_and_mask bits 52 (by decide)

theorem toNat_field (bits : UInt64) :
    ((bits >>> 52) &&& 0x7FF).toNat = bits.toNat / 2 ^ 52 % 2 ^ 11 := by
  have hmask := toNat_and_mask (bits >>> 52) 11 (by decide)
  have hshift : (bits >>> 52).toNat = bits.toNat / 2 ^ 52 := by
    rw [UInt64.toNat_shiftRight, Nat.shiftRight_eq_div_pow]
    rfl
  rw [hshift] at hmask
  exact hmask

theorem toNat_unpackMantissa (x : Float) :
    (@unpackMantissa .binary64 x.toModel.toBits.toBitVec).toNat = x.toBits.toNat % 2 ^ 52 := by
  unfold unpackMantissa
  rw [BitVec.toNat_cast, BitVec.extractLsb_toNat]
  rfl

theorem toNat_unpackExponent (x : Float) :
    (@unpackExponent .binary64 x.toModel.toBits.toBitVec).toNat =
      x.toBits.toNat / 2 ^ 52 % 2 ^ 11 := by
  unfold unpackExponent
  rw [BitVec.toNat_cast, BitVec.extractLsb_toNat, Nat.shiftRight_eq_div_pow]
  rfl

theorem toNat_unpackSign (x : Float) :
    (@unpackSign .binary64 x.toModel.toBits.toBitVec).toNat = x.toBits.toNat / 2 ^ 63 % 2 := by
  unfold unpackSign
  rw [BitVec.toNat_cast, BitVec.extractLsb_toNat, Nat.shiftRight_eq_div_pow]
  rfl

def storedSign (x : Float) : Sign := Sign.ofBitVec (@unpackSign .binary64 x.toModel.toBits.toBitVec)

theorem bit_eq (x : Float) : (x.toBits >>> 63 == 1) = (storedSign x == .negative) := by
  have hbit : (x.toBits >>> 63).toNat =
      (@unpackSign .binary64 x.toModel.toBits.toBitVec).toNat := by
    rw [toNat_unpackSign, UInt64.toNat_shiftRight, Nat.shiftRight_eq_div_pow]
    have hlt := x.toBits.toNat_lt
    change x.toBits.toNat / 2 ^ 63 = _
    omega
  unfold storedSign
  generalize @unpackSign .binary64 x.toModel.toBits.toBitVec = sign at hbit
  obtain rfl | rfl := BitVec.eq_zero_or_eq_one sign
  · have hzero : x.toBits >>> 63 = 0 := UInt64.toNat_inj.1 hbit
    rw [hzero]
    rfl
  · have hone : x.toBits >>> 63 = 1 := UInt64.toNat_inj.1 hbit
    rw [hone]
    rfl

-- The parts that a number is printed from are those it is stored in.
theorem ofBits_of_unpack {x : Float} {s : Sign} {m : Nat} {e : Int} {hm : 0 < m}
    (h : x.toModel.unpack = .finite s m e hm) :
    (Binary.ofBits (magnitude x)).significand = m ∧ (Binary.ofBits (magnitude x)).exponent = e ∧
      storedSign x = s := by
  have hfield : ((magnitude x >>> 52) &&& 0x7FF).toNat = x.toBits.toNat / 2 ^ 52 % 2 ^ 11 := by
    rw [toNat_field, toNat_magnitude]
    omega
  have hfraction : (magnitude x &&& 0xFFFFFFFFFFFFF).toNat = x.toBits.toNat % 2 ^ 52 := by
    rw [toNat_fraction, toNat_magnitude]
    omega
  have hmantissa := toNat_unpackMantissa x
  have hexponent := toNat_unpackExponent x
  unfold Float.Model.unpack UnpackedFloat.unpack at h
  dsimp only at h
  split at h
  case isTrue => split at h <;> cases h
  case isFalse hinf =>
      unfold Binary.ofBits
      dsimp only
      rw [hfield, hfraction]
      split at h
      case isTrue hzero =>
          split at h
          case isTrue => cases h
          case isFalse =>
              obtain ⟨rfl, rfl, rfl⟩ := UnpackedFloat.finite.inj h
              have hleast : x.toBits.toNat / 2 ^ 52 % 2 ^ 11 = 0 :=
                hexponent ▸ congrArg BitVec.toNat hzero
              rw [if_pos hleast, hexponent, hleast]
              exact ⟨hmantissa.symm, rfl, rfl⟩
      case isFalse hzero =>
          obtain ⟨rfl, rfl, rfl⟩ := UnpackedFloat.finite.inj h
          have hleast : x.toBits.toNat / 2 ^ 52 % 2 ^ 11 ≠ 0 := fun heq =>
            hzero (BitVec.eq_of_toNat_eq (hexponent.trans heq))
          rw [if_neg hleast, hexponent, Time.toNat_full, hmantissa]
          exact ⟨rfl, rfl, rfl⟩

end Patchbay.Decimal

namespace Patchbay.Json

open Float.Model (UnpackedFloat Format)
open Float.Model.UnpackedFloat
open Decimal (magnitude storedSign Binary Layout)

theorem upper_le_safeLimit {x : Binary} (hshort : x.significand < 2 ^ 53) (hmost : x.exponent ≤ 971)
    (h : x.exponent ≤ 970 ∨ x.significand ≤ 2 ^ 53 - 6) : x.upper ≤ safeLimit := by
  -- A variable, for else the power would be worked out.
  obtain ⟨c, hc⟩ : ∃ c : Nat, c = 970 := ⟨970, rfl⟩
  have hne : (2 : ℚ) ≠ 0 := by norm_num
  have hsafe : (safeLimit : ℚ) = (2 ^ 54 - 11 : Nat) * 2 ^ (c : Int) := by
    have hnat : safeLimit = (2 ^ 54 - 11) * 2 ^ c := by
      rw [hc]
      rfl
    refine (congrArg Nat.cast hnat).trans ?_
    rw [Nat.cast_mul, zpow_natCast, Nat.cast_pow, Nat.cast_ofNat]
  have hupper : x.upper = (2 * x.significand + 1 : Nat) * 2 ^ (x.exponent - 1) := by
    have hexponent : x.exponent - 1 = x.exponent - 2 + 1 := by omega
    rw [Binary.upper, hexponent, zpow_add_one₀ hne]
    push_cast
    ring
  have htwo : (1 : ℚ) ≤ 2 := by norm_num
  refine (le_of_eq hupper).trans (le_of_le_of_eq ?_ hsafe.symm)
  rcases h with hexponent | hsignificand
  · have hhalf : (2 : ℚ) ^ (c : Int) = 2 ^ ((c : Int) - 1) * 2 := by
      rw [← zpow_add_one₀ hne, Int.sub_add_cancel]
    have hpow : (2 : ℚ) ^ (x.exponent - 1) ≤ 2 ^ ((c : Int) - 1) :=
      zpow_le_zpow_right₀ htwo (by omega)
    have hle : ((2 * x.significand + 1 : Nat) : ℚ) ≤ (2 ^ 54 - 11 : Nat) * 2 := by
      exact_mod_cast (by omega : 2 * x.significand + 1 ≤ (2 ^ 54 - 11) * 2)
    calc ((2 * x.significand + 1 : Nat) : ℚ) * 2 ^ (x.exponent - 1)
        ≤ (2 ^ 54 - 11 : Nat) * 2 * 2 ^ ((c : Int) - 1) := by gcongr
      _ = (2 ^ 54 - 11 : Nat) * 2 ^ (c : Int) := by rw [hhalf]; ring
  · have hpow : (2 : ℚ) ^ (x.exponent - 1) ≤ 2 ^ (c : Int) := zpow_le_zpow_right₀ htwo (by omega)
    have hle : ((2 * x.significand + 1 : Nat) : ℚ) ≤ (2 ^ 54 - 11 : Nat) := by
      exact_mod_cast (by omega : 2 * x.significand + 1 ≤ 2 ^ 54 - 11)
    gcongr

theorem render_eq {x : Float} {s : Sign} {m : Nat} {e : Int} {hm : 0 < m}
    (h : x.toModel.unpack = .finite s m e hm) :
    renderNumber (.real x) = String.ofList (Figures.signText (storedSign x == .negative) ++
      (Layout.json.positive (Decimal.shortest .even (Binary.ofBits (magnitude x)))).toList) := by
  obtain ⟨hsignificand, -, -⟩ := Decimal.ofBits_of_unpack h
  have hfinite : x.isFinite = true := by
    change x.toModel.unpack.isFinite = true
    rw [h]
    rfl
  have hnan : x.isNaN = false := by
    change x.toModel.unpack.isNaN = false
    rw [h]
    rfl
  have hinf : x.isInf = false := by
    change x.toModel.unpack.isInf = false
    rw [h]
    rfl
  have hpos : (magnitude x == 0) = false := by
    rw [beq_eq_false_iff_ne]
    intro hzero
    rw [hzero] at hsignificand
    exact Nat.ne_of_gt hm hsignificand.symm
  change (if x.isFinite then Layout.json.render x else "null") = _
  rw [hfinite, if_pos rfl]
  change (if x.isNaN then "NaN"
    else if x.isInf then (if x.toBits >>> 63 == 1 then "-" else "") ++ "inf"
    else if magnitude x == 0 then (if x.toBits >>> 63 == 1 then "-" else "") ++ "0.0"
    else (if x.toBits >>> 63 == 1 then "-" else "") ++
      Layout.json.positive (Decimal.shortest .even (Binary.ofBits (magnitude x)))) = _
  rw [hnan, hinf, hpos, Decimal.bit_eq]
  cases storedSign x == .negative with
  | true => exact String.toList_inj.1 (by simp [Figures.signText])
  | false => exact String.toList_inj.1 (by simp [Figures.signText])

-- The sign of a number that is not 0 is the one it is stored with.
theorem lt_zero_of_negative {x : Float} {m : Nat} {e : Int} {hm : 0 < m}
    (h : x.toModel.unpack = .finite .negative m e hm) : x < 0 := by
  have hplace : Time.place x = some (-1, -e, -(m : Int)) := congrArg Time.rank h
  exact Time.lt_iff.2 ⟨_, _, hplace, rfl, rfl⟩

theorem negative_of_lt_zero {s : Sign} {x : Float} (h : Sized s x.toModel.unpack) (hx : x < 0) :
    s = .negative := by
  obtain ⟨a, b, ha, hb, hab⟩ := Time.lt_iff.1 hx
  obtain rfl : (0, 0, 0) = b := Option.some_inj.1 hb
  have ha : Time.rank x.toModel.unpack = some a := ha
  cases s with
  | negative => rfl
  | positive =>
      obtain hzero | ⟨m, e, hm, hfinite⟩ := h
      · rw [hzero] at ha
        obtain rfl := Option.some_inj.1 ha
        cases hab
      · rw [hfinite] at ha
        obtain rfl := Option.some_inj.1 ha
        cases hab

-- The text of a number is read as a finite one, and that is below 0 only if the first is.
def Reprints (x : Float) : Prop :=
  ∃ y, numberOf? (renderNumber (.real x)) = some (.real y) ∧ y.isFinite = true ∧ (y < 0 → x < 0)

def reprints (x : Float) : Bool :=
  match numberOf? (renderNumber (.real x)) with
  | some (.real y) => y.isFinite && (!decide (y < 0) || decide (x < 0))
  | _ => false

theorem reprints_of_test {x : Float} (h : reprints x = true) : Reprints x := by
  unfold reprints at h
  split at h
  case h_1 y hy =>
      rw [Bool.and_eq_true, Bool.or_eq_true, Bool.not_eq_true', decide_eq_false_iff_not,
        decide_eq_true_iff] at h
      exact ⟨y, hy, h.1, h.2.resolve_left ∘ not_not_intro⟩
  case h_2 => cases h

theorem eq_of_unpack {x : Float} {u : UnpackedFloat} (h : x.toModel.unpack = u) :
    x = .ofModel (Float.Model.pack u) := by
  rw [← h, Time.pack_unpack_eq]

theorem signOf_stored (x : Float) : signOf (storedSign x == .negative) = storedSign x := by
  cases storedSign x <;> rfl

theorem reprints_zero (s : Sign) : Reprints (.ofModel (Float.Model.pack (.zero s))) := by
  cases s <;> exact reprints_of_test (by decide +kernel)

-- The greatest doubles, whose texts come close to what is too great.
theorem reprints_greatest (s : Sign) {j : Nat} (hj : j < 5) :
    Reprints (.ofModel (Float.Model.pack (.finite s (2 ^ 53 - 5 + j) 971
      (Nat.add_pos_left (by decide) j)))) := by
  have hall : ∀ j < 5, reprints (.ofModel (Float.Model.pack (.finite s (2 ^ 53 - 5 + j) 971
      (Nat.add_pos_left (by decide) j)))) = true := by
    cases s <;> decide +kernel
  exact reprints_of_test (hall j hj)

theorem reprints_short {x : Float} {s : Sign} {m : Nat} {e : Int} {hm : 0 < m}
    (h : x.toModel.unpack = .finite s m e hm) (hshort : e ≤ 970 ∨ m ≤ 2 ^ 53 - 6) : Reprints x := by
  obtain ⟨hcanonical, hmost⟩ := Time.canonical_of_unpack h
  obtain ⟨hsignificand, hexponent, hsign⟩ := Decimal.ofBits_of_unpack h
  have hpos := Decimal.shortest_pos (hsignificand ▸ hm) .even
  have hsafe := (Decimal.shortest_le_upper .even (Binary.ofBits (magnitude x))).trans
    (upper_le_safeLimit (hsignificand ▸ hcanonical.short) (hexponent ▸ hmost)
      (hexponent ▸ hsignificand ▸ hshort))
  obtain ⟨y, hy, hsized⟩ := Figures.numberOf?_positive hpos hsafe (storedSign x == .negative)
  rw [signOf_stored, hsign] at hsized
  refine ⟨y, render_eq h ▸ hy, hsized.isFinite, fun hlt => ?_⟩
  obtain rfl := negative_of_lt_zero hsized hlt
  exact lt_zero_of_negative h

theorem reprints_finite {x : Float} (h : x.isFinite = true) : Reprints x := by
  change x.toModel.unpack.isFinite = true at h
  cases hunpack : x.toModel.unpack with
  | notANumber =>
      rw [hunpack] at h
      cases h
  | infinity s =>
      rw [hunpack] at h
      cases h
  | zero s => exact eq_of_unpack hunpack ▸ reprints_zero s
  | finite s m e hm =>
      by_cases hshort : e ≤ 970 ∨ m ≤ 2 ^ 53 - 6
      · exact reprints_short hunpack hshort
      · obtain ⟨hcanonical, hmost⟩ := Time.canonical_of_unpack hunpack
        have hlt := hcanonical.short
        obtain ⟨j, rfl⟩ : ∃ j, m = 2 ^ 53 - 5 + j := ⟨m - (2 ^ 53 - 5), by omega⟩
        obtain rfl : e = 971 := by omega
        exact eq_of_unpack hunpack ▸ reprints_greatest s (by omega)

end Patchbay.Json
