import Patchbay.Proofs.Float.Sums
import Patchbay.Json.Scan

namespace Patchbay.Json

open Time (Canonical Rounds Below target target_eq exponentBias_eq mantissa_shift log2_mono
  log2_mul_pow whole whole_shift shiftToTargetExponent_eq shiftToTargetExponent_short
  roundWithAccuracy_eq round_nearest)
open Float.Model (UnpackedFloat Format totalExponent)
open Float.Model.UnpackedFloat

-- A number that is neither infinite nor none at all, with its sign.
def Sized (s : Sign) (u : UnpackedFloat) : Prop := u = .zero s ∨ ∃ m e h, u = .finite s m e h

theorem Sized.isFinite {s : Sign} {u : UnpackedFloat} (h : Sized s u) : u.isFinite = true := by
  obtain rfl | ⟨m, e, hm, rfl⟩ := h <;> rfl

theorem Sized.isInf {s : Sign} {u : UnpackedFloat} (h : Sized s u) : u.isInf = false := by
  obtain rfl | ⟨m, e, hm, rfl⟩ := h <;> rfl

theorem sized_unpack {s : Sign} {biased : Nat} (hbiased : biased < 2047) (mantissa : BitVec 52) :
    Sized s (UnpackedFloat.unpack Format.binary64
      (packComponents Format.binary64 s (BitVec.ofNat 11 biased) mantissa)) := by
  have hinf : BitVec.ofNat 11 biased ≠ -1#11 := fun heq => by
    have heq := congrArg BitVec.toNat heq
    rw [BitVec.toNat_ofNat, Nat.mod_eq_of_lt (by omega)] at heq
    exact Nat.ne_of_lt hbiased heq
  unfold UnpackedFloat.unpack
  simp only [unpackExponent_packComponents, unpackMantissa_packComponents,
    unpackSign_packComponents, Sign.ofBitVec_toBitVec, hinf, ↓reduceIte]
  split
  · split
    case isTrue => exact .inl rfl
    case isFalse hmantissa =>
        exact .inr ⟨_, _, Nat.pos_of_ne_zero fun h => hmantissa (BitVec.eq_of_toNat_eq h), rfl⟩
  · exact .inr ⟨_, _,
      Nat.lt_of_lt_of_le (by decide) (Time.toNat_full mantissa ▸ Nat.le_add_right _ _),
      rfl⟩

-- What is stored is infinite at most if its exponent is too great.
theorem sized_pack {s : Sign} {m : Nat} {e : Int} (h : 0 < m) (he : e ≤ 971) :
    Sized s (Float.Model.pack (.finite s m e h)).unpack := by
  change Sized s (UnpackedFloat.unpack Format.binary64
    (UnpackedFloat.pack Format.binary64 (.finite s m e h)))
  unfold UnpackedFloat.pack
  dsimp only
  rw [exponentBias_eq]
  have hbiased : (e + 1023 + ((52 : Nat) : Int)).toNat < 2047 := by omega
  rw [if_neg (show ¬2 ^ 11 ≤ (e + 1023 + ((52 : Nat) : Int)).toNat + 1 by omega)]
  have hleast : 0 < 2047 := by omega
  split
  · exact sized_unpack hbiased _
  · exact sized_unpack hleast _

theorem sized_or_infinite {s : Sign} {m : Nat} {e : Int} (h : 0 < m) :
    Sized s (Float.Model.pack (.finite s m e h)).unpack ∨
      (Float.Model.pack (.finite s m e h)).unpack = .infinity s := by
  by_cases he : e ≤ 971
  · exact .inl (sized_pack h he)
  · right
    change UnpackedFloat.unpack Format.binary64
      (UnpackedFloat.pack Format.binary64 (.finite s m e h)) = _
    unfold UnpackedFloat.pack
    dsimp only
    rw [exponentBias_eq, if_pos (show 2 ^ 11 ≤ (e + 1023 + ((52 : Nat) : Int)).toNat + 1 by omega)]
    cases s <;> rfl

theorem sized_zero (s : Sign) : Sized s (Float.Model.pack (.zero s)).unpack := by
  cases s <;> exact .inl rfl

theorem sized_stored {s : Sign} {u : UnpackedFloat} (h : Sized s u) :
    Sized s (Float.Model.pack u).unpack ∨ (Float.Model.pack u).unpack = .infinity s := by
  obtain rfl | ⟨m, e, hm, rfl⟩ := h
  · exact .inl (sized_zero s)
  · exact sized_or_infinite hm

theorem rounded_le (em : ExtendedMantissa) : em.roundedMantissa ≤ em.mantissa + 1 := by
  rcases em with ⟨m, r, s⟩
  cases r <;> cases s <;>
    simp [ExtendedMantissa.roundedMantissa, ExtendedMantissa.accuracy, Accuracy.roundToNearestEven]
  omega

-- Rounding takes a mantissa at most one bit up.
theorem log2_rounded_le {m k r : Nat} (hr : r ≤ m / 2 ^ k + 1) :
    r.log2 = 0 ∨ r.log2 + k ≤ m.log2 + 1 := by
  by_cases hk : k ≤ m.log2
  · right
    have hlt : m < 2 ^ (m.log2 + 1 - k) * 2 ^ k := by
      rw [← Nat.pow_add, Nat.sub_add_cancel (by omega)]
      exact Nat.lt_log2_self
    have hquot : m / 2 ^ k < 2 ^ (m.log2 + 1 - k) :=
      (Nat.div_lt_iff_lt_mul (Nat.two_pow_pos k)).2 hlt
    by_cases hzero : r = 0
    · rw [hzero, Nat.log2_zero]
      omega
    · have hlog := log2_mono (Nat.pos_of_ne_zero hzero) (show r ≤ 2 ^ (m.log2 + 1 - k) by omega)
      rw [Nat.log2_two_pow] at hlog
      omega
  · left
    have hlt : m < 2 ^ k := by
      refine Nat.lt_of_lt_of_le Nat.lt_log2_self (Nat.pow_le_pow_right (by decide) (by omega))
    rw [Nat.div_eq_of_lt hlt] at hr
    have : r = 0 ∨ r = 1 := by omega
    rcases this with rfl | rfl <;> rfl

-- A number below half of what is too great stays finite, however it was come by.
theorem sized_roundWithAccuracy {s : Sign} {m : Nat} {e : Int} {accuracy : Accuracy}
    (hvalue : m.log2 + e ≤ 1022) (he : e ≤ 971) :
    Sized s (Float.Model.pack (roundWithAccuracy Format.binary64 s m e accuracy)).unpack := by
  obtain ⟨em, t, hshift, ht, hm⟩ : ∃ em t,
      shiftToTargetExponent Format.binary64 m e accuracy = (em, t) ∧
      t = e + (target m e - e).toNat ∧ em.mantissa = m / 2 ^ (target m e - e).toNat :=
    ⟨_, _, rfl, rfl, by
      rw [mantissa_shift]
      cases accuracy with
      | exact => rfl
      | inexact order => cases order <;> rfl⟩
  have htarget := target_eq m e
  have hagain := target_eq em.roundedMantissa t
  have hround : em.roundedMantissa ≤ m / 2 ^ (target m e - e).toNat + 1 := hm ▸ rounded_le em
  have hlog := log2_rounded_le hround
  unfold roundWithAccuracy
  rw [hshift]
  dsimp only
  split
  · cases s <;> exact .inl rfl
  · apply sized_pack
    change t + (target em.roundedMantissa t - t).toNat ≤ 971
    omega

theorem sized_rounded {s : Sign} {m : Nat} {e : Int} {accuracy : Accuracy} :
    Sized s (roundWithAccuracy Format.binary64 s m e accuracy) := by
  unfold roundWithAccuracy
  dsimp only
  split
  · exact .inl rfl
  · exact .inr ⟨_, _, _, rfl⟩

-- A mantissa is brought to its canonical form unchanged.
theorem roundWithAccuracy_canonical {m : Nat} {e : Int} (h : Canonical m e) (s : Sign) (k : Nat) :
    roundWithAccuracy Format.binary64 s (m * 2 ^ k) (e - k) .exact = .finite s m e h.pos := by
  have htarget := target_eq (m * 2 ^ k) (e - k)
  rw [log2_mul_pow h.pos] at htarget
  have hlog := h.log2_eq
  have hleast := h.least
  have hshift : (target (m * 2 ^ k) (e - k) - (e - k)).toNat = k := by omega
  have hfirst : shiftToTargetExponent Format.binary64 (m * 2 ^ k) (e - k) .exact = (whole m, e) := by
    rw [shiftToTargetExponent_eq, hshift, whole_shift k (Nat.dvd_mul_left _ _),
      Nat.mul_div_cancel _ (Nat.two_pow_pos k)]
    congr 1
    omega
  exact roundWithAccuracy_eq hfirst (shiftToTargetExponent_short h.short h.least) h.pos

-- With no bits to spare a number is rounded as it stands.
theorem roundWithAccuracy_round {m : Nat} {e : Int} (s : Sign) (he : e ≤ target m e) :
    roundWithAccuracy Format.binary64 s m e .exact = round Format.binary64 s m e := by
  have hnone : (e - target m e).toNat = 0 := by omega
  have hround : round Format.binary64 s m e = roundWithAccuracy Format.binary64 s
    (m <<< (e - target m e).toNat) (e - (e - target m e).toNat) .exact := rfl
  rw [hround, hnone, Nat.shiftLeft_zero, Nat.cast_zero, Int.sub_zero]

-- Rounding adds at most one to the mantissa.
theorem rounds_le {m r : Nat} {e t : Int} (h : Rounds m e r t) (he : e ≤ target m e)
    (hfull : target m e = m.log2 + e - 52) (hm : 0 < m) :
    2 ^ 52 ≤ r ∧ target m e ≤ t ∧ t ≤ target m e + 1 ∧
      r * 2 ^ (t - target m e).toNat ≤ m / 2 ^ (target m e - e).toNat + 1 := by
  have hleast : -1074 ≤ target m e := by
    rw [target_eq]
    omega
  have hlog : m.log2 = 52 + (target m e - e).toNat := by omega
  have hpos := Nat.two_pow_pos (target m e - e).toNat
  have hlow : 2 ^ 52 ≤ m / 2 ^ (target m e - e).toNat := by
    rw [Nat.le_div_iff_mul_le hpos, ← Nat.pow_add, ← hlog]
    exact Nat.log2_self_le (Nat.ne_of_gt hm)
  have hhigh : m / 2 ^ (target m e - e).toNat < 2 ^ 53 := by
    rw [Nat.div_lt_iff_lt_mul hpos, ← Nat.pow_add,
      show 53 + (target m e - e).toNat = m.log2 + 1 by omega]
    exact Nat.lt_log2_self
  have hfloor : m / 2 ^ (target m e - e).toNat * 2 ^ (target m e - e).toNat ≤ m :=
    Nat.div_mul_le_self _ _
  have hceil : m ≤ (m / 2 ^ (target m e - e).toNat + 1) * 2 ^ (target m e - e).toNat :=
    Nat.le_of_lt ((Nat.div_lt_iff_lt_mul hpos).1 (Nat.lt_succ_self _))
  generalize m / 2 ^ (target m e - e).toNat = q at hlow hhigh hfloor hceil ⊢
  have habove := h.above q (target m e) ⟨by omega, hhigh, hleast, .inl hlow⟩ he hfloor
  have hr := h.full
  have hshort := h.short
  unfold Below at habove
  refine ⟨by omega, by omega, ?_⟩
  by_cases hcarry : q + 1 < 2 ^ 53
  · have hbelow := h.below (q + 1) (target m e) ⟨by omega, hcarry, hleast, .inl (by omega)⟩ he hceil
    unfold Below at hbelow
    obtain rfl : t = target m e := by omega
    simp only [Int.sub_self, Int.toNat_zero, Nat.pow_zero, Nat.mul_one]
    exact ⟨by omega, by omega⟩
  · obtain rfl : q = 2 ^ 53 - 1 := by omega
    have htwice : (target m e + 1 - e).toNat = (target m e - e).toNat + 1 := by omega
    have hbelow := h.below (2 ^ 52) (target m e + 1)
      ⟨by decide, by decide, by omega, .inl (Nat.le_refl _)⟩ (by omega) (by
        rw [htwice, Nat.pow_succ]
        omega)
    unfold Below at hbelow
    refine ⟨by omega, ?_⟩
    by_cases ht : t = target m e
    · rw [ht, Int.sub_self, Int.toNat_zero, Nat.pow_zero, Nat.mul_one]
      omega
    · obtain rfl : t = target m e + 1 := by omega
      have hone : (target m e + 1 - target m e).toNat = 1 := by omega
      rw [hone]
      omega

theorem mul_finite {s s' : Sign} {m m' : Nat} {e e' : Int} (h : 0 < m) (h' : 0 < m') :
    UnpackedFloat.mul Format.binary64 (.finite s m e h) (.finite s' m' e' h') =
      roundWithAccuracy Format.binary64 (s * s') (m * m') (e + e') .exact := rfl

-- A full mantissa that stands for the whole number, or for little more.
def Near (n : Nat) (u : UnpackedFloat) : Prop :=
  ∃ m e h, u = .finite .positive m e h ∧ 2 ^ 52 ≤ m ∧ n.log2 ≤ e + 52 ∧ e ≤ 971 ∧
    m * 2 ^ (e + 52).toNat ≤ n * (2 ^ 52 + 1)

theorem Near.sized {n : Nat} {u : UnpackedFloat} (h : Near n u) : Sized .positive u := by
  obtain ⟨m, e, hm, hu, -⟩ := h
  exact .inr ⟨m, e, hm, hu⟩

-- A whole number of at most 53 bits is stored exactly.
theorem unpack_ofUInt64_short {n d : Nat} (hd : n.log2 + d = 52)
    (hcanonical : Canonical (n * 2 ^ d) (-d)) :
    (Float.Model.ofUInt64 (UInt64.ofNat n)).unpack =
      .finite .positive (n * 2 ^ d) (-d) hcanonical.pos := by
  have hn : 0 < n := Nat.pos_of_mul_pos_right hcanonical.pos
  have hshort : n < 2 ^ 53 := (Nat.log2_lt (Nat.ne_of_gt hn)).1 (by omega)
  have hsame : (UInt64.ofNat n).toNat = n := by
    rw [UInt64.toNat_ofNat']
    exact Nat.mod_eq_of_lt (by omega)
  have hround : round Format.binary64 .positive n 0 =
      .finite .positive (n * 2 ^ d) (-d) hcanonical.pos := by
    have htarget := target_eq n 0
    have hspare : (0 - target n 0).toNat = d := by omega
    have hdecrease : round Format.binary64 .positive n 0 = roundWithAccuracy Format.binary64
      .positive (n <<< (0 - target n 0).toNat) (0 - (0 - target n 0).toNat) .exact := rfl
    have hexact := roundWithAccuracy_canonical hcanonical .positive 0
    rw [hdecrease, hspare, Nat.shiftLeft_eq, Int.zero_sub]
    simpa using hexact
  have hnormal : UnpackedFloat.ofUInt64 Format.binary64 (UInt64.ofNat n) =
      round Format.binary64 .positive n 0 := by
    change UnpackedFloat.normalize Format.binary64 ((UInt64.ofNat n).toNat : Int) 0 .positive = _
    rw [hsame, Time.normalize_of_pos (by omega)]
    rfl
  change (Float.Model.pack (UnpackedFloat.ofUInt64 Format.binary64 (UInt64.ofNat n))).unpack = _
  rw [hnormal, hround, Time.unpack_pack_finite hcanonical, if_pos (by omega)]

-- It is read as itself times the first power of ten in the table.
theorem ofNat_short {n : Nat} (hshort : n < 2 ^ 53) :
    (Float.ofNat n).toModel = Float.Model.mul (Float.Model.ofUInt64 (UInt64.ofNat n))
      (Float.exactlyRepresentablePowersOfTen[0]).toModel := by
  change (Float.ofScientific n false 0).toModel = _
  rw [Float.ofScientific, dif_pos ⟨hshort, by decide⟩]
  rfl

theorem near_ofNat_short {n : Nat} (hn : 0 < n) (hshort : n < 2 ^ 53) :
    Near n (Float.ofNat n).toModel.unpack := by
  have hlog : n.log2 < 53 := (Nat.log2_lt (Nat.ne_of_gt hn)).2 hshort
  obtain ⟨d, hd⟩ : ∃ d, n.log2 + d = 52 := ⟨52 - n.log2, by omega⟩
  have hpos : 0 < n * 2 ^ d := Nat.mul_pos hn (Nat.two_pow_pos d)
  have hfull : (n * 2 ^ d).log2 = 52 := by rw [log2_mul_pow hn, hd]
  have hbounds := (Nat.log2_eq_iff (Nat.ne_of_gt hpos)).1 hfull
  have hcanonical : Canonical (n * 2 ^ d) (-d) := ⟨hpos, hbounds.2, by omega, .inl hbounds.1⟩
  have hone : (Float.exactlyRepresentablePowersOfTen[0]).toModel.unpack =
      .finite .positive (2 ^ 52) (-52) (by decide) := rfl
  have hproduct : UnpackedFloat.mul Format.binary64 (.finite .positive (n * 2 ^ d) (-d) hpos)
      (.finite .positive (2 ^ 52) (-52) (by decide)) = .finite .positive (n * 2 ^ d) (-d) hpos :=
    roundWithAccuracy_canonical hcanonical .positive 52
  refine ⟨n * 2 ^ d, -d, hpos, ?_, hbounds.1, by omega, by omega, ?_⟩
  · rw [ofNat_short hshort, Float.Model.mul, unpack_ofUInt64_short hd hcanonical, hone, hproduct,
      Time.unpack_pack_finite hcanonical, if_pos (by omega)]
  · have hexponent : (-(d : Int) + 52).toNat = 52 - d := by omega
    rw [hexponent, Nat.mul_assoc, ← Nat.pow_add, Nat.add_sub_cancel' (by omega)]
    exact Nat.mul_le_mul_left _ (Nat.le_succ _)

theorem shifted_div (n j k : Nat) : n * 2 ^ k / 2 ^ (j + k) = n / 2 ^ j := by
  rw [Nat.pow_add, Nat.mul_div_mul_right _ _ (Nat.two_pow_pos k)]

-- A number of more than 53 bits is rounded.
theorem near_rounded {n : Nat} (hn : 2 ^ 53 ≤ n) (hmost : n.log2 ≤ 1023)
    (hshort : n / 2 ^ (n.log2 - 52) < 2 ^ 53 - 1 ∨ n.log2 < 1023) :
    Near n (Float.Model.pack (roundWithAccuracy Format.binary64 .positive (n * 2 ^ 53) (-53)
      .exact)).unpack := by
  have hpos : 0 < n := by omega
  have hleast : 53 ≤ n.log2 := (Nat.le_log2 (Nat.ne_of_gt hpos)).2 hn
  have hshifted : 0 < n * 2 ^ 53 := Nat.mul_pos hpos (Nat.two_pow_pos 53)
  have hlog : (n * 2 ^ 53).log2 = n.log2 + 53 := log2_mul_pow hpos 53
  have htarget := target_eq (n * 2 ^ 53) (-53)
  obtain ⟨j, hj⟩ : ∃ j, n.log2 = j + 52 := ⟨n.log2 - 52, by omega⟩
  have hvalue : target (n * 2 ^ 53) (-53) = j := by omega
  have hk : (target (n * 2 ^ 53) (-53) - -53).toNat = j + 53 := by omega
  have hhalf : 2 ^ (j + 52) ≤ n := hj ▸ Nat.log2_self_le (Nat.ne_of_gt hpos)
  obtain ⟨r, t, h, hround⟩ := round_nearest (e := -53) hshifted (by decide) (by omega)
  obtain ⟨hfull, hle, hcarry, hbound⟩ := rounds_le h (by omega) (by omega) hshifted
  rw [hk, shifted_div, hvalue] at hbound
  rw [hvalue] at hle hcarry
  rw [hj, Nat.add_sub_cancel] at hshort
  have hstored : t ≤ 971 := by
    rcases hshort with hshort | hshort
    · by_contra ht
      have hone : (t - j).toNat = 1 := by omega
      rw [hone] at hbound
      omega
    · omega
  refine ⟨r, t, h.pos, ?_, hfull, by omega, hstored, ?_⟩
  · rw [roundWithAccuracy_round _ (by omega), hround, Time.unpack_pack_finite h.toCanonical,
      if_pos hstored]
  · have hsplit : (t + 52).toNat = (t - j).toNat + (j + 52) := by omega
    calc r * 2 ^ (t + 52).toNat = r * 2 ^ (t - j).toNat * 2 ^ (j + 52) := by
          rw [hsplit, Nat.pow_add, Nat.mul_assoc]
      _ ≤ (n / 2 ^ j + 1) * 2 ^ (j + 52) := Nat.mul_le_mul_right _ hbound
      _ = n / 2 ^ j * 2 ^ j * 2 ^ 52 + 2 ^ (j + 52) := by rw [Nat.pow_add]; ring
      _ ≤ n * 2 ^ 52 + n :=
          Nat.add_le_add (Nat.mul_le_mul_right _ (Nat.div_mul_le_self n _)) hhalf
      _ = n * (2 ^ 52 + 1) := by ring

-- What is too long for the table is multiplied out and rounded.
theorem ofScientific_eq {n m power : Nat} (hn : n = m * 10 ^ power) (hm : 0 < m)
    (hpower : power ≤ 2048) (hlong : ¬(m < 2 ^ 53 ∧ power ≤ 22)) :
    (Float.ofScientific m false power).toModel =
      Float.Model.pack (roundWithAccuracy Format.binary64 .positive (n * 2 ^ 53) (-53) .exact) := by
  have hbits : (2 : Int) ^ Format.binary64.exponentBits = 2048 := rfl
  rw [Float.ofScientific, dif_neg hlong]
  change Float.Model.pack (UnpackedFloat.ofScientific Format.binary64 m (power : Int)) = _
  rw [UnpackedFloat.ofScientific, dif_neg (by omega), if_neg (by omega), if_neg (by omega),
    if_pos (by omega)]
  have hshift : m <<< Format.binary64.mantissaBits * 10 ^ (power : Int).toNat = n * 2 ^ 53 := by
    rw [Nat.shiftLeft_eq, hn, Int.toNat_natCast, Nat.mul_right_comm]
    rfl
  rw [mul_finite, hshift]
  rfl

theorem near_ofNat {n : Nat} (hn : 0 < n) (hword : n ≤ wordLimit) :
    Near n (Float.ofNat n).toModel.unpack := by
  by_cases hshort : n < 2 ^ 53
  · exact near_ofNat_short hn hshort
  · have hlimit : wordLimit = 2 ^ 64 - 1 := rfl
    have hlog : n.log2 < 64 := (Nat.log2_lt (Nat.ne_of_gt hn)).2 (by omega)
    have hnone : n = n * 10 ^ 0 := (Nat.mul_one n).symm
    have hofNat := ofScientific_eq hnone hn (by decide) (by omega)
    change Near n (Float.ofScientific n false 0).toModel.unpack
    rw [hofNat]
    exact near_rounded (Nat.not_lt.1 hshort) (by omega) (.inr (by omega))

theorem sized_ofNat {n : Nat} (hword : n ≤ wordLimit) :
    Sized .positive (Float.ofNat n).toModel.unpack := by
  by_cases hn : n = 0
  · subst hn
    exact .inl rfl
  · exact (near_ofNat (Nat.pos_of_ne_zero hn) hword).sized

-- Whether the table of the shorter powers has this one.
def nearPower (power : Nat) : Bool :=
  match (powerOfTen power).toModel.unpack with
  | .finite .positive m e _ =>
    2 ^ 52 ≤ m && (10 ^ power).log2 ≤ e + 52 && e ≤ 971 &&
      m * 2 ^ (e + 52).toNat ≤ 10 ^ power * (2 ^ 52 + 1)
  | _ => false

theorem near_of_nearPower {power : Nat} (h : nearPower power = true) :
    Near (10 ^ power) (powerOfTen power).toModel.unpack := by
  unfold nearPower at h
  split at h
  case h_1 m e hm hunpack =>
      simp only [Bool.and_eq_true, decide_eq_true_iff] at h
      obtain ⟨⟨⟨hfull, hlog⟩, hmost⟩, hbound⟩ := h
      exact ⟨m, e, hm, hunpack, hfull, hlog, hmost, hbound⟩
  case h_2 => cases h

theorem near_powerOfTen {power : Nat} (hpower : power ≤ greatestPower) :
    Near (10 ^ power) (powerOfTen power).toModel.unpack := by
  have hgreatest : greatestPower = 308 := rfl
  by_cases hshort : power ≤ 22
  · have htable : (List.range 23).all nearPower = true := by decide +kernel
    exact near_of_nearPower (List.all_eq_true.1 htable power (List.mem_range.2 (by omega)))
  · have hlow : 2 ^ 53 ≤ 10 ^ power :=
      Nat.le_trans (by decide +kernel : 2 ^ 53 ≤ 10 ^ 23)
        (Nat.pow_le_pow_right (by decide) (by omega))
    have hne : 10 ^ power ≠ 0 := Nat.ne_of_gt (Nat.pow_pos (by decide))
    have hofScientific := ofScientific_eq (Nat.one_mul (10 ^ power)).symm Nat.one_pos (by omega)
      fun h => hshort h.2
    unfold powerOfTen
    rw [hofScientific]
    by_cases hlast : power = 308
    · subst hlast
      have hlog : (10 ^ 308).log2 = 1023 := by decide +kernel
      exact near_rounded hlow (by omega) (.inl (by rw [hlog]; decide +kernel))
    · have hlog : (10 ^ power).log2 < 1023 := by
        -- Variables, for else the powers would be worked out.
        obtain ⟨c, d, hc, hd⟩ : ∃ c d : Nat, c = 307 ∧ d = 1023 := ⟨307, 1023, rfl, rfl⟩
        have hbound : 10 ^ c < 2 ^ d := by
          rw [hc, hd]
          decide +kernel
        have hle : power ≤ c := by omega
        rw [← hd]
        exact (Nat.log2_lt hne).2
          (Nat.lt_of_le_of_lt (Nat.pow_le_pow_right (Nat.succ_pos 9) hle) hbound)
      exact near_rounded hlow (by omega) (.inr hlog)

-- Before it is stored a product is never infinite.
theorem mul_sized {s s' : Sign} {u v : UnpackedFloat} (hu : Sized s u) (hv : Sized s' v) :
    Sized (s * s') (UnpackedFloat.mul Format.binary64 u v) := by
  obtain rfl | ⟨m, e, hm, rfl⟩ := hu <;> obtain rfl | ⟨n, f, hn, rfl⟩ := hv
  · exact .inl rfl
  · exact .inl rfl
  · exact .inl rfl
  · exact sized_rounded

theorem sized_mul {x y : Float} (hx : Sized .positive x.toModel.unpack)
    (hy : Sized .positive y.toModel.unpack) (h : (x * y).isInf = false) :
    Sized .positive (x * y).toModel.unpack := by
  refine (sized_stored (mul_sized hx hy)).resolve_right fun hinf => ?_
  change (Float.Model.pack (UnpackedFloat.mul Format.binary64 x.toModel.unpack
    y.toModel.unpack)).unpack.isInf = false at h
  rw [hinf] at h
  cases h

-- A long mantissa is rounded to nothing that is too great, unless it is greater than the greatest
-- double itself.
theorem sized_long {m : Nat} {e : Int} (hm : 2 ^ 104 ≤ m) (he : -104 ≤ e) (hmost : e ≤ 971)
    (hle : m ≤ (2 ^ 53 - 1) * 2 ^ (971 - e).toNat) :
    Sized .positive (Float.Model.pack (roundWithAccuracy Format.binary64 .positive m e
      .exact)).unpack := by
  have hpos : 0 < m := Nat.lt_of_lt_of_le (Nat.two_pow_pos 104) hm
  have hlog : 104 ≤ m.log2 := (Nat.le_log2 (Nat.ne_of_gt hpos)).2 hm
  have htarget := target_eq m e
  have hspare : e ≤ target m e := by omega
  obtain ⟨r, t, h, hround⟩ := round_nearest hpos (by omega) hspare
  have hcanonical : Canonical (2 ^ 53 - 1) 971 :=
    ⟨by decide, by decide, by decide, .inl (by decide)⟩
  have hbelow := h.below (2 ^ 53 - 1) 971 hcanonical hmost hle
  have hstored : t ≤ 971 := by
    unfold Below at hbelow
    omega
  rw [roundWithAccuracy_round _ hspare, hround]
  exact sized_pack h.pos hstored

-- Numbers up to here are finite however they are come by.
def safeLimit : Nat := (2 ^ 54 - 11) * 2 ^ 970

-- Greater powers than those that the reader has are not among them.
theorem safeLimit_lt {power : Nat} (h : greatestPower < power) : safeLimit < 10 ^ power := by
  -- A variable, for else the power would be worked out.
  obtain ⟨c, hc⟩ : ∃ c : Nat, c = 309 := ⟨309, rfl⟩
  have hleast : safeLimit < 10 ^ c := by
    rw [hc]
    decide +kernel
  exact Nat.lt_of_lt_of_le hleast (Nat.pow_le_pow_right (Nat.succ_pos 9) (hc ▸ h))

-- Both factors are a little too great at most, and so is their product.
theorem product_le {m q n t a b w : Nat} (hm : m * a ≤ n * (2 ^ 52 + 1))
    (hq : q * b ≤ t * (2 ^ 52 + 1)) (h : n * t ≤ (2 ^ 54 - 11) * w) :
    m * q * (a * b) ≤ (2 ^ 53 - 1) * 2 ^ 105 * w := by
  have herrors : (2 ^ 54 - 11) * ((2 ^ 52 + 1) * (2 ^ 52 + 1)) ≤ (2 ^ 53 - 1) * 2 ^ 105 := by decide
  calc m * q * (a * b) = m * a * (q * b) := Nat.mul_mul_mul_comm _ _ _ _
    _ ≤ n * (2 ^ 52 + 1) * (t * (2 ^ 52 + 1)) := Nat.mul_le_mul hm hq
    _ = n * t * ((2 ^ 52 + 1) * (2 ^ 52 + 1)) := Nat.mul_mul_mul_comm _ _ _ _
    _ ≤ (2 ^ 54 - 11) * w * ((2 ^ 52 + 1) * (2 ^ 52 + 1)) := Nat.mul_le_mul_right _ h
    _ = (2 ^ 54 - 11) * ((2 ^ 52 + 1) * (2 ^ 52 + 1)) * w := Nat.mul_right_comm _ _ _
    _ ≤ (2 ^ 53 - 1) * 2 ^ 105 * w := Nat.mul_le_mul_right _ herrors

theorem sized_product {n power : Nat} (hword : n ≤ wordLimit) (hpower : power ≤ greatestPower)
    (h : n * 10 ^ power ≤ safeLimit) :
    Sized .positive (Float.ofNat n * powerOfTen power).toModel.unpack := by
  change Sized .positive (Float.Model.pack (UnpackedFloat.mul Format.binary64
    (Float.ofNat n).toModel.unpack (powerOfTen power).toModel.unpack)).unpack
  obtain ⟨q, f, hq, hpow, hqfull, hflog, hfmost, hqvalue⟩ := near_powerOfTen hpower
  by_cases hn : n = 0
  · subst hn
    have hzero : (Float.ofNat 0).toModel.unpack = .zero .positive := rfl
    rw [hzero, hpow]
    exact sized_zero .positive
  · obtain ⟨m, e, hm, hint, hmfull, helog, hemost, hmvalue⟩ :=
      near_ofNat (Nat.pos_of_ne_zero hn) hword
    rw [hint, hpow, mul_finite]
    -- The exponent is a variable here, for else its power would be worked out.
    obtain ⟨c, hc⟩ : ∃ c : Nat, c = 970 := ⟨970, rfl⟩
    have hsafe : safeLimit = (2 ^ 54 - 11) * 2 ^ c := by
      rw [hc]
      rfl
    obtain ⟨k, hk⟩ : ∃ k : Nat, e + f = k - 104 := ⟨(e + f + 104).toNat, by omega⟩
    have hlong : 2 ^ 104 ≤ m * q := by
      rw [Nat.pow_add 2 52 52]
      exact Nat.mul_le_mul hmfull hqfull
    have hbound : m * q * 2 ^ k ≤ (2 ^ 53 - 1) * 2 ^ (105 + c) := by
      have hsum : k = (e + 52).toNat + (f + 52).toNat := by omega
      rw [hsum, Nat.pow_add, Nat.pow_add, ← Nat.mul_assoc (2 ^ 53 - 1)]
      exact product_le hmvalue hqvalue (hsafe ▸ h)
    have hexponent : k < 1024 := by
      have hpowers : 2 ^ (104 + k) < 2 ^ (53 + (105 + c)) := by
        rw [Nat.pow_add, Nat.pow_add]
        refine Nat.lt_of_le_of_lt (Nat.le_trans (Nat.mul_le_mul_right _ hlong) hbound) ?_
        exact Nat.mul_lt_mul_of_pos_right (by decide) (Nat.two_pow_pos _)
      have := (Nat.pow_lt_pow_iff_right (by decide)).1 hpowers
      omega
    refine sized_long hlong (by omega) (by omega)
      (Nat.le_of_mul_le_mul_right ?_ (Nat.two_pow_pos k))
    have hsplit : 105 + c = (971 - (e + f)).toNat + k := by omega
    rwa [Nat.mul_assoc (2 ^ 53 - 1), ← Nat.pow_add, ← hsplit]

-- A short mantissa by a full one: the quotient has no more bits than the shift.
theorem log2_quotient_le {m q k : Nat} (hm : m < 2 ^ 53) (hq : 2 ^ 52 ≤ q) :
    (m <<< k / q).log2 ≤ k := by
  have hpos : 0 < q := Nat.lt_of_lt_of_le (Nat.two_pow_pos 52) hq
  by_cases hzero : m <<< k / q = 0
  · rw [hzero, Nat.log2_zero]
    exact Nat.zero_le k
  · refine Nat.le_of_lt_succ ((Nat.log2_lt hzero).2 ((Nat.div_lt_iff_lt_mul hpos).2 ?_))
    rw [Nat.shiftLeft_eq]
    calc m * 2 ^ k < 2 ^ 53 * 2 ^ k := Nat.mul_lt_mul_of_pos_right hm (Nat.two_pow_pos k)
      _ = 2 ^ (k + 1) * 2 ^ 52 := by ring
      _ ≤ 2 ^ (k + 1) * q := Nat.mul_le_mul_left _ hq

theorem sized_quotient {x : Float} {power : Nat} (hx : Sized .positive x.toModel.unpack)
    (hleast : 0 < power) (hpower : power ≤ greatestPower) :
    Sized .positive (x / powerOfTen power).toModel.unpack := by
  change Sized .positive (Float.Model.pack (UnpackedFloat.div Format.binary64
    x.toModel.unpack (powerOfTen power).toModel.unpack)).unpack
  obtain ⟨q, f, hq, hpow, hqfull, hflog, hfmost, -⟩ := near_powerOfTen hpower
  rw [hpow]
  obtain hzero | ⟨m, e, hm, hfinite⟩ := hx
  · rw [hzero]
    exact sized_zero .positive
  · obtain ⟨hcanonical, hmost⟩ := Time.canonical_of_unpack hfinite
    have hten : 3 ≤ (10 ^ power).log2 := by
      have hne : 10 ^ power ≠ 0 := Nat.ne_of_gt (Nat.pow_pos (by decide))
      refine (Nat.le_log2 hne).2 (Nat.le_trans (by decide : 2 ^ 3 ≤ 10 ^ 1) ?_)
      exact Nat.pow_le_pow_right (by decide) hleast
    rw [hfinite]
    have hlogm := hcanonical.log2_eq.1
    have hlogq : 52 ≤ q.log2 := (Nat.le_log2 (Nat.ne_of_gt hq)).2 hqfull
    obtain ⟨t, ht⟩ : ∃ t, t = min (e - f)
        (Format.binary64.targetExponent (totalExponent m e - totalExponent q f)) := ⟨_, rfl⟩
    have hshift : t ≤ e - f := ht ▸ min_le_left _ _
    have hexponent : t ≤ 971 := by
      have htarget : Format.binary64.targetExponent (totalExponent m e - totalExponent q f) =
          max (m.log2 + 1 + e - (q.log2 + 1 + f) - 53) (-1074) := rfl
      omega
    obtain ⟨k, hk⟩ : ∃ k, k = (e - f - t).toNat := ⟨_, rfl⟩
    have hlog : (m <<< k / q).log2 ≤ k := log2_quotient_le hcanonical.short hqfull
    have hdiv : UnpackedFloat.div Format.binary64 (.finite .positive m e hm)
        (.finite .positive q f hq) = roundWithAccuracy Format.binary64 .positive (m <<< k / q) t
          (accuracyOfFraction (m <<< k % q) q) := by
      rw [hk, ht]
      rfl
    rw [hdiv]
    exact sized_roundWithAccuracy (by omega) hexponent

theorem sized_divideByTen {fuel power : Nat} {x : Float} (hx : Sized .positive x.toModel.unpack)
    (hleast : 0 < power) : Sized .positive (divideByTen fuel x power).toModel.unpack := by
  induction fuel generalizing x power with
  | zero => exact hx
  | succ fuel ih =>
      rw [divideByTen]
      split
      case isTrue hpower => exact sized_quotient hx hleast hpower
      case isFalse hpower =>
          split
          case isTrue => exact hx
          case isFalse =>
              exact ih (sized_quotient hx (by decide) (Nat.le_refl _)) (by omega)

theorem sized_scaled {n : Nat} {power : Int} {x : Float} (hword : n ≤ wordLimit)
    (h : scaled n power = some x) : Sized .positive x.toModel.unpack := by
  unfold scaled at h
  dsimp only at h
  split at h
  case h_1 below =>
      obtain rfl := Option.some_inj.1 h
      exact sized_divideByTen (sized_ofNat hword) (Nat.succ_pos _)
  case h_2 above =>
      split at h
      case isTrue hpower =>
          split at h
          case isTrue => cases h
          case isFalse hinf =>
              obtain rfl := Option.some_inj.1 h
              exact sized_mul (sized_ofNat hword) (near_powerOfTen hpower).sized
                (Bool.eq_false_iff.2 hinf)
      case isFalse =>
          split at h
          case isTrue =>
              obtain rfl := Option.some_inj.1 h
              exact sized_ofNat hword
          case isFalse => cases h

-- What is not too great to be a double is one.
theorem exists_scaled {n : Nat} {power : Int} (hword : n ≤ wordLimit)
    (h : ∀ above : Nat, power = above → n * 10 ^ above ≤ safeLimit) :
    ∃ x, scaled n power = some x := by
  unfold scaled
  dsimp only
  split
  case h_1 below => exact ⟨_, rfl⟩
  case h_2 above =>
      have hsafe := h above rfl
      split
      case isTrue hpower =>
          have hfinite : (Float.ofNat n * powerOfTen above).isInf = false :=
            (sized_product hword hpower hsafe).isInf
          rw [hfinite]
          exact ⟨_, rfl⟩
      case isFalse hpower =>
          have hgreat : safeLimit < 10 ^ above := safeLimit_lt (Nat.not_le.1 hpower)
          -- Nothing but 0 takes so great a power.
          obtain rfl : n = 0 := by
            by_contra hn
            have hone : 10 ^ above ≤ n * 10 ^ above :=
              Nat.le_mul_of_pos_left _ (Nat.pos_of_ne_zero hn)
            exact Nat.lt_irrefl _ (Nat.lt_of_lt_of_le hgreat (hone.trans hsafe))
          have hzero : (Float.ofNat 0 == 0.0) = true := by decide +kernel
          rw [if_pos hzero]
          exact ⟨_, rfl⟩

end Patchbay.Json
