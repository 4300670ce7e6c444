import Mathlib
import Patchbay.Proofs.Float.Order

namespace Patchbay.Time

open Float.Model (UnpackedFloat Format totalExponent)
open Float.Model.UnpackedFloat

-- The form in which a finite number is stored: with a full mantissa, or at the least exponent.
structure Canonical (m : Nat) (e : Int) : Prop where
  pos : 0 < m
  short : m < 2 ^ 53
  least : -1074 ≤ e
  full : 2 ^ 52 ≤ m ∨ e = -1074

theorem Canonical.log2_eq {m : Nat} {e : Int} (h : Canonical m e) :
    m.log2 ≤ 52 ∧ (e = -1074 ∨ m.log2 = 52) := by
  have hne := Nat.ne_of_gt h.pos
  have hshort := (Nat.log2_lt hne).2 h.short
  refine ⟨by omega, ?_⟩
  rcases h.full with hfull | hleast
  · exact .inr ((Nat.log2_eq_iff hne).2 ⟨hfull, h.short⟩)
  · exact .inl hleast

theorem log2_mono {m n : Nat} (hm : 0 < m) (h : m ≤ n) : m.log2 ≤ n.log2 :=
  (Nat.le_log2 (by omega)).2 ((Nat.log2_self_le (Nat.ne_of_gt hm)).trans h)

theorem log2_mul_pow {m : Nat} (hm : 0 < m) (k : Nat) : (m * 2 ^ k).log2 = m.log2 + k := by
  have hne : m * 2 ^ k ≠ 0 := Nat.ne_of_gt (Nat.mul_pos hm (Nat.two_pow_pos k))
  have hsplit : 2 ^ (m.log2 + k + 1) = 2 ^ (m.log2 + 1) * 2 ^ k := by
    rw [← Nat.pow_add]
    congr 1
    omega
  rw [Nat.log2_eq_iff hne, Nat.pow_add, hsplit]
  exact ⟨Nat.mul_le_mul_right _ (Nat.log2_self_le (Nat.ne_of_gt hm)),
    Nat.mul_lt_mul_of_pos_right Nat.lt_log2_self (Nat.two_pow_pos k)⟩

-- A mantissa of which nothing has been lost.
def whole (m : Nat) : ExtendedMantissa := ⟨m, false, false⟩

theorem mantissa_shift (em : ExtendedMantissa) (k : Nat) :
    (em >>> k).mantissa = em.mantissa / 2 ^ k := by
  induction k with
  | zero => exact (Nat.div_one _).symm
  | succ k ih =>
      change (em >>> k).mantissa / 2 = _
      rw [ih, Nat.div_div_eq_div_mul, Nat.pow_succ]

theorem whole_shift {m : Nat} (k : Nat) (h : 2 ^ k ∣ m) : whole m >>> k = whole (m / 2 ^ k) := by
  induction k with
  | zero =>
      rw [Nat.pow_zero, Nat.div_one]
      rfl
  | succ k ih =>
      change (whole m >>> k).shiftRightOne = _
      obtain ⟨n, rfl⟩ := h
      rw [ih (Nat.dvd_trans (Nat.pow_dvd_pow 2 k.le_succ) (Nat.dvd_mul_right _ _))]
      have hhalf : 2 ^ (k + 1) * n / 2 ^ k = 2 * n := by
        rw [Nat.pow_succ, Nat.mul_assoc, Nat.mul_div_cancel_left _ (Nat.two_pow_pos k)]
      rw [hhalf, Nat.mul_div_cancel_left _ (Nat.two_pow_pos _)]
      simp [ExtendedMantissa.shiftRightOne, whole]

def nearest (m k : Nat) : Nat := (whole m >>> k).roundedMantissa

theorem nearest_bounds (m k : Nat) : m / 2 ^ k ≤ nearest m k ∧ nearest m k ≤ m / 2 ^ k + 1 := by
  have hmantissa : (whole m >>> k).mantissa = m / 2 ^ k := mantissa_shift (whole m) k
  rw [← hmantissa, nearest]
  rcases whole m >>> k with ⟨m', r, s⟩
  cases r <;> cases s <;>
    simp [ExtendedMantissa.roundedMantissa, ExtendedMantissa.accuracy, Accuracy.roundToNearestEven]
  omega

-- What lies on either side of a number lies on that side of what it is rounded to.
theorem le_nearest {m n k : Nat} (h : n * 2 ^ k ≤ m) : n ≤ nearest m k :=
  ((Nat.le_div_iff_mul_le (Nat.two_pow_pos k)).2 h).trans (nearest_bounds m k).1

theorem nearest_le {m n k : Nat} (h : m ≤ n * 2 ^ k) : nearest m k ≤ n := by
  by_cases hexact : 2 ^ k ∣ m
  case pos =>
      rw [nearest, whole_shift k hexact]
      exact Nat.div_le_of_le_mul (by rwa [Nat.mul_comm])
  case neg =>
      have hlt : m < n * 2 ^ k := by
        refine Nat.lt_of_le_of_ne h ?_
        rintro rfl
        exact hexact (Nat.dvd_mul_left _ _)
      have hquot : m / 2 ^ k < n := (Nat.div_lt_iff_lt_mul (Nat.two_pow_pos k)).2 hlt
      have hnear := (nearest_bounds m k).2
      omega

def target (m : Nat) (e : Int) : Int := Format.binary64.targetExponent (totalExponent m e)

theorem target_eq (m : Nat) (e : Int) : target m e = max (m.log2 + e - 52) (-1074) := by
  change max ((m.log2 : Int) + 1 + e - ((53 : Nat) : Int)) (3 - 2 ^ 10 - ((53 : Nat) : Int)) = _
  omega

theorem shiftToTargetExponent_eq (m : Nat) (e : Int) :
    shiftToTargetExponent Format.binary64 m e .exact =
      (whole m >>> (target m e - e).toNat, e + (target m e - e).toNat) := rfl

theorem shiftToTargetExponent_short {m : Nat} {e : Int} (hm : m < 2 ^ 53) (he : -1074 ≤ e) :
    shiftToTargetExponent Format.binary64 m e .exact = (whole m, e) := by
  have hlog : m.log2 ≤ 52 := by
    by_cases hzero : m = 0
    · simp [hzero]
    · have := (Nat.log2_lt hzero).2 hm
      omega
  have hnone : (target m e - e).toNat = 0 := by
    rw [target_eq]
    omega
  rw [shiftToTargetExponent_eq, hnone, Nat.cast_zero, Int.add_zero]
  rfl

-- A mantissa that has been rounded up to one bit too many.
theorem shiftToTargetExponent_carry {e : Int} (he : -1074 ≤ e) :
    shiftToTargetExponent Format.binary64 (2 ^ 53) e .exact = (whole (2 ^ 52), e + 1) := by
  have hone : (target (2 ^ 53) e - e).toNat = 1 := by
    rw [target_eq, Nat.log2_two_pow]
    omega
  rw [shiftToTargetExponent_eq, hone]
  rfl

theorem roundWithAccuracy_eq {s : Sign} {m r : Nat} {e t u : Int} {em : ExtendedMantissa}
    (hfirst : shiftToTargetExponent Format.binary64 m e .exact = (em, t))
    (hagain : shiftToTargetExponent Format.binary64 em.roundedMantissa t .exact = (whole r, u))
    (hr : 0 < r) : roundWithAccuracy Format.binary64 s m e .exact = .finite s r u hr := by
  unfold roundWithAccuracy
  rw [hfirst]
  dsimp only
  rw [hagain]
  exact dif_neg (Nat.ne_of_gt hr)

namespace Canonical

variable {n : Nat} {f : Int} (h : Canonical n f)
include h

theorem le_target {m : Nat} {e : Int} (he : e ≤ f) (hle : n * 2 ^ (f - e).toNat ≤ m) :
    f ≤ target m e := by
  have hlog := log2_mono (Nat.mul_pos h.pos (Nat.two_pow_pos _)) hle
  rw [log2_mul_pow h.pos] at hlog
  have hfull := h.log2_eq.2
  rw [target_eq]
  omega

theorem target_le {m : Nat} {e : Int} (hm : 0 < m) (he : e ≤ f)
    (hle : m ≤ n * 2 ^ (f - e).toNat) : target m e ≤ f := by
  have hlog := log2_mono hm hle
  rw [log2_mul_pow h.pos] at hlog
  have hshort := h.log2_eq.1
  have hleast := h.least
  rw [target_eq]
  omega

end Canonical

-- Of two numbers in canonical form, the one with the smaller exponent is the smaller.
def Below (m : Nat) (e : Int) (n : Nat) (f : Int) : Prop := e < f ∨ e = f ∧ m ≤ n

-- What a number is rounded to lies where the number does among those in canonical form.
structure Rounds (m : Nat) (e : Int) (r : Nat) (t : Int) : Prop extends Canonical r t where
  above : ∀ n f, Canonical n f → e ≤ f → n * 2 ^ (f - e).toNat ≤ m → Below n f r t
  below : ∀ n f, Canonical n f → e ≤ f → m ≤ n * 2 ^ (f - e).toNat → Below r t n f

-- With bits to spare nothing is lost.
theorem round_spare {m : Nat} {e : Int} (hm : 0 < m) (he : target m e < e) :
    ∃ r t, ∃ h : Rounds m e r t, ∀ s, round Format.binary64 s m e = .finite s r t h.pos := by
  let d := (e - target m e).toNat
  have hd : (d : Int) = e - target m e := by omega
  have htarget := target_eq m e
  have hpos : 0 < m * 2 ^ d := Nat.mul_pos hm (Nat.two_pow_pos d)
  have hlog : (m * 2 ^ d).log2 = m.log2 + d := log2_mul_pow hm d
  have hshort : m * 2 ^ d < 2 ^ 53 := (Nat.log2_lt (Nat.ne_of_gt hpos)).1 (by omega)
  have hfull : 2 ^ 52 ≤ m * 2 ^ d ∨ target m e = -1074 := by
    by_cases hleast : target m e = -1074
    · exact .inr hleast
    · exact .inl ((Nat.le_log2 (Nat.ne_of_gt hpos)).1 (by omega))
  have hrounds : Rounds m e (m * 2 ^ d) (target m e) := by
    refine ⟨⟨hpos, hshort, by omega, hfull⟩, fun n f hn hf hle => ?_, fun n f hn hf hle => ?_⟩
    · have := hn.le_target hf hle
      omega
    · exact .inl (by omega)
  refine ⟨_, _, hrounds, fun s => ?_⟩
  have hround : round Format.binary64 s m e =
      roundWithAccuracy Format.binary64 s (m <<< d) (e - d) .exact := rfl
  have hshift := shiftToTargetExponent_short hshort hrounds.least
  rw [hround, Nat.shiftLeft_eq, show e - (d : Int) = target m e by omega]
  exact roundWithAccuracy_eq hshift hshift hpos

theorem round_nearest {m : Nat} {e : Int} (hm : 0 < m) (hleast : -1074 ≤ e)
    (he : e ≤ target m e) :
    ∃ r t, ∃ h : Rounds m e r t, ∀ s, round Format.binary64 s m e = .finite s r t h.pos := by
  let k := (target m e - e).toNat
  have hk : (k : Int) = target m e - e := by omega
  have htarget := target_eq m e
  have hpos : 0 < nearest m k := by
    refine le_nearest (n := 1) ?_
    rw [Nat.one_mul]
    exact (Nat.le_log2 (Nat.ne_of_gt hm)).1 (by omega)
  have hfull : 2 ^ 52 ≤ nearest m k ∨ target m e = -1074 := by
    by_cases hmin : target m e = -1074
    · exact .inr hmin
    · refine .inl (le_nearest ?_)
      rw [← Nat.pow_add]
      exact (Nat.le_log2 (Nat.ne_of_gt hm)).1 (by omega)
  have hmost : nearest m k ≤ 2 ^ 53 := by
    refine nearest_le (Nat.le_of_lt ?_)
    rw [← Nat.pow_add]
    exact (Nat.log2_lt (Nat.ne_of_gt hm)).1 (by omega)
  have hround (s : Sign) : round Format.binary64 s m e =
      roundWithAccuracy Format.binary64 s m e .exact := by
    have hnone : (e - target m e).toNat = 0 := by omega
    have hsame : round Format.binary64 s m e = roundWithAccuracy Format.binary64 s
      (m <<< (e - target m e).toNat) (e - (e - target m e).toNat) .exact := rfl
    rw [hsame, hnone, Nat.shiftLeft_zero, Nat.cast_zero, Int.sub_zero]
  have hfirst : shiftToTargetExponent Format.binary64 m e .exact = (whole m >>> k, target m e) := by
    rw [shiftToTargetExponent_eq]
    congr 1
    omega
  by_cases hcarry : nearest m k < 2 ^ 53
  case pos =>
      have hrounds : Rounds m e (nearest m k) (target m e) := by
        refine ⟨⟨hpos, hcarry, by omega, hfull⟩, fun n f hn hf hle => ?_, fun n f hn hf hle => ?_⟩
        · rcases Int.lt_or_eq_of_le (hn.le_target hf hle) with hlt | rfl
          · exact .inl hlt
          · exact .inr ⟨rfl, le_nearest hle⟩
        · rcases Int.lt_or_eq_of_le (hn.target_le hm hf hle) with hlt | rfl
          · exact .inl hlt
          · exact .inr ⟨rfl, nearest_le hle⟩
      refine ⟨_, _, hrounds, fun s => ?_⟩
      rw [hround]
      exact roundWithAccuracy_eq hfirst (shiftToTargetExponent_short hcarry hrounds.least) hpos
  case neg =>
      have hmax : (whole m >>> k).roundedMantissa = 2 ^ 53 :=
        Nat.le_antisymm hmost (Nat.not_lt.1 hcarry)
      have hrounds : Rounds m e (2 ^ 52) (target m e + 1) := by
        refine ⟨⟨by decide, by decide, by omega, .inl (Nat.le_refl _)⟩, fun n f hn hf hle => ?_,
          fun n f hn hf hle => ?_⟩
        · have := hn.le_target hf hle
          exact .inl (by omega)
        · -- No mantissa at the exponent aimed at is as great as one that is rounded up beyond it.
          have hle' := hn.target_le hm hf hle
          have hne : target m e ≠ f := by
            rintro rfl
            have hnear : nearest m k ≤ n := nearest_le hle
            have hshort := hn.short
            omega
          have hfull := hn.full
          unfold Below
          omega
      refine ⟨_, _, hrounds, fun s => ?_⟩
      rw [hround]
      refine roundWithAccuracy_eq hfirst ?_ (by decide)
      rw [hmax]
      exact shiftToTargetExponent_carry (by omega)

theorem exists_rounds {m : Nat} {e : Int} (hm : 0 < m) (he : -1074 ≤ e) :
    ∃ r t, ∃ h : Rounds m e r t, ∀ s, round Format.binary64 s m e = .finite s r t h.pos := by
  by_cases hspare : target m e < e
  · exact round_spare hm hspare
  · exact round_nearest hm he (by omega)

theorem exponentBias_eq : ((Format.exponentBias Format.binary64 : Nat) : Int) = 1023 := rfl

theorem toNat_full (mantissa : BitVec 52) : (1#1 ++ mantissa).toNat = 2 ^ 52 + mantissa.toNat := by
  rw [BitVec.toNat_append, ← Nat.shiftLeft_add_eq_or_of_lt mantissa.isLt]
  rfl

theorem canonical_of_unpack {x : Float.Model} {s : Sign} {m : Nat} {e : Int} {hm : 0 < m}
    (h : x.unpack = .finite s m e hm) : Canonical m e ∧ e ≤ 971 := by
  have hmantissa : (@unpackMantissa .binary64 x.toBits.toBitVec).toNat < 2 ^ 52 :=
    BitVec.isLt _
  have hexponent : (@unpackExponent .binary64 x.toBits.toBitVec).toNat < 2 ^ 11 :=
    BitVec.isLt _
  unfold Float.Model.unpack UnpackedFloat.unpack at h
  dsimp only at h
  split at h
  case isTrue => split at h <;> cases h
  case isFalse hinf =>
      split at h
      case isTrue hzero =>
          split at h <;> cases h
          simp only [exponentBias_eq, congrArg BitVec.toNat hzero, BitVec.toNat_ofNat]
          refine ⟨⟨hm, ?_, ?_, ?_⟩, ?_⟩ <;> omega
      case isFalse hzero =>
          cases h
          have hleast : (@unpackExponent .binary64 x.toBits.toBitVec).toNat ≠ 0 :=
            fun heq => hzero (BitVec.eq_of_toNat_eq heq)
          have hmost : (@unpackExponent .binary64 x.toBits.toBitVec).toNat ≠ 2047 :=
            fun heq => hinf (BitVec.eq_of_toNat_eq heq)
          rw [toNat_full, exponentBias_eq]
          refine ⟨⟨?_, ?_, ?_, ?_⟩, ?_⟩ <;> omega

theorem pack_unpack_eq (x : Float.Model) : Float.Model.pack x.unpack = x := by
  obtain ⟨bits, hvalid⟩ := x
  have hbits := pack_unpack_of_valid hvalid
  unfold Float.Model.pack Float.Model.unpack
  congr 1
  exact congrArg UInt64.ofBitVec hbits

theorem unpack_normal {s : Sign} {m biased : Nat} (hm : m < 2 ^ 53) (hfull : 2 ^ 52 ≤ m)
    (hleast : 0 < biased) (hmost : biased < 2047) :
    UnpackedFloat.unpack Format.binary64
        (packComponents Format.binary64 s (BitVec.ofNat 11 biased) (BitVec.ofNat 52 m)) =
      .finite s m (biased - 1075) (Nat.lt_of_lt_of_le (by decide) hfull) := by
  have hbiased : (BitVec.ofNat 11 biased).toNat = biased := Nat.mod_eq_of_lt (by omega)
  have hinf : BitVec.ofNat 11 biased ≠ -1#11 := fun heq => by
    have heq := congrArg BitVec.toNat heq
    rw [hbiased] at heq
    exact Nat.ne_of_lt hmost heq
  have hzero : BitVec.ofNat 11 biased ≠ 0#11 := fun heq => by
    have heq := congrArg BitVec.toNat heq
    rw [hbiased] at heq
    exact Nat.ne_of_gt hleast heq
  have hmantissa : (1#1 ++ BitVec.ofNat 52 m).toNat = m := by
    rw [toNat_full]
    change 2 ^ 52 + m % 2 ^ 52 = m
    omega
  unfold UnpackedFloat.unpack
  simp only [unpackExponent_packComponents, unpackMantissa_packComponents,
    unpackSign_packComponents, Sign.ofBitVec_toBitVec, hinf, hzero, ↓reduceIte, hmantissa, hbiased]
  rfl

theorem unpack_subnormal {s : Sign} {m : Nat} (hm : 0 < m) (hshort : m < 2 ^ 52) :
    UnpackedFloat.unpack Format.binary64
        (packComponents Format.binary64 s 0#11 (BitVec.ofNat 52 m)) =
      .finite s m (-1074) hm := by
  have hmantissa : (BitVec.ofNat 52 m).toNat = m := Nat.mod_eq_of_lt hshort
  have hzero : BitVec.ofNat 52 m ≠ 0#52 := fun heq => by
    have heq := congrArg BitVec.toNat heq
    rw [hmantissa] at heq
    exact Nat.ne_of_gt hm heq
  have hinf : (0#11 : BitVec 11) ≠ -1#11 := by decide
  unfold UnpackedFloat.unpack
  simp only [unpackExponent_packComponents, unpackMantissa_packComponents,
    unpackSign_packComponents, Sign.ofBitVec_toBitVec, hinf, hzero, ↓reduceIte, ↓reduceDIte,
    hmantissa]
  rfl

-- What is too great to be stored overflows.
theorem unpack_pack_finite {s : Sign} {m : Nat} {e : Int} (h : Canonical m e) :
    (Float.Model.pack (.finite s m e h.pos)).unpack =
      if e ≤ 971 then .finite s m e h.pos else .infinity s := by
  have hshort := h.short
  have hleast := h.least
  have hfull := h.full
  change UnpackedFloat.unpack Format.binary64
    (UnpackedFloat.pack Format.binary64 (.finite s m e h.pos)) = _
  unfold UnpackedFloat.pack
  dsimp only
  rw [exponentBias_eq]
  generalize hb : (e + 1023 + ((52 : Nat) : Int)).toNat = biased
  have hbiased : (biased : Int) = e + 1075 := by omega
  by_cases he : e ≤ 971
  case neg =>
      rw [if_pos (show 2 ^ 11 ≤ biased + 1 by omega), if_neg he]
      cases s <;> rfl
  case pos =>
      rw [if_neg (show ¬2 ^ 11 ≤ biased + 1 by omega), if_pos he]
      change UnpackedFloat.unpack _ (if m.log2 + 1 = 53 then _ else _) = _
      by_cases hnormal : 2 ^ 52 ≤ m
      case pos =>
          have hlog : m.log2 = 52 := (Nat.log2_eq_iff (Nat.ne_of_gt h.pos)).2 ⟨hnormal, hshort⟩
          rw [if_pos (by rw [hlog])]
          refine (unpack_normal hshort hnormal (by omega) (by omega)).trans ?_
          congr 1
          omega
      case neg =>
          have hlog : m.log2 < 52 := (Nat.log2_lt (Nat.ne_of_gt h.pos)).2 (by omega)
          obtain rfl : e = -1074 := by omega
          rw [if_neg (by omega)]
          exact unpack_subnormal h.pos (by omega)

theorem isLE_order {a b : Int × Int × Int} : (order a b).isLE = true ↔
    a.1 < b.1 ∨ a.1 = b.1 ∧ (a.2.1 < b.2.1 ∨ a.2.1 = b.2.1 ∧ a.2.2 ≤ b.2.2) := by
  simp [order, compareLex, compareOn, Ordering.isLE_then_iff_or, compare_lt_iff_lt,
    Std.isLE_compare]

-- Once stored, the number has at least the given place.
def Reached (a : Int × Int × Int) (u : UnpackedFloat) : Prop :=
  ∃ b, rank (Float.Model.pack u).unpack = some b ∧ (order a b).isLE = true

theorem reached_infinity {a : Int × Int × Int} (ha : a.1 < 2) : Reached a (.infinity .positive) :=
  ⟨(2, 0, 0), rfl, isLE_order.2 (.inl ha)⟩

theorem reached_self {x : Float} {a : Int × Int × Int} (h : place x = some a) :
    Reached a x.toModel.unpack := by
  refine ⟨a, ?_, isLE_order.2 (.inr ⟨rfl, .inr ⟨rfl, Int.le_refl _⟩⟩)⟩
  rw [pack_unpack_eq]
  exact h

theorem reached_round {n m : Nat} {f e : Int} (hn : Canonical n f) (hf : e ≤ f)
    (he : -1074 ≤ e) (hle : n * 2 ^ (f - e).toNat ≤ m) :
    Reached (1, f, n) (round Format.binary64 .positive m e) := by
  have hm : 0 < m := Nat.lt_of_lt_of_le (Nat.mul_pos hn.pos (Nat.two_pow_pos _)) hle
  obtain ⟨r, t, h, hround⟩ := exists_rounds hm he
  have habove := h.above n f hn hf hle
  unfold Below at habove
  unfold Reached
  rw [hround, unpack_pack_finite h.toCanonical]
  split
  case isTrue =>
      refine ⟨(1, t, r), rfl, isLE_order.2 (.inr ⟨rfl, ?_⟩)⟩
      dsimp only
      omega
  case isFalse => exact ⟨(2, 0, 0), rfl, isLE_order.2 (.inl (by simp))⟩

theorem reached_round_negative {n m : Nat} {f e : Int} (hn : Canonical n f) (hmost : f ≤ 971)
    (hf : e ≤ f) (he : -1074 ≤ e) (hm : 0 < m) (hle : m ≤ n * 2 ^ (f - e).toNat) :
    Reached (-1, -f, -n) (round Format.binary64 .negative m e) := by
  obtain ⟨r, t, h, hround⟩ := exists_rounds hm he
  have hbelow := h.below n f hn hf hle
  unfold Below at hbelow
  unfold Reached
  rw [hround, unpack_pack_finite h.toCanonical, if_pos (by omega)]
  refine ⟨(-1, -t, -r), rfl, isLE_order.2 (.inr ⟨rfl, ?_⟩)⟩
  dsimp only
  omega

theorem reached_round_across {m : Nat} {e : Int} {a : Int × Int × Int} (ha : a.1 = -1)
    (hm : 0 < m) (he : -1074 ≤ e) : Reached a (round Format.binary64 .positive m e) := by
  obtain ⟨r, t, h, hround⟩ := exists_rounds hm he
  unfold Reached
  rw [hround, unpack_pack_finite h.toCanonical]
  split
  case isTrue => exact ⟨(1, t, r), rfl, isLE_order.2 (.inl (by simp [ha]))⟩
  case isFalse => exact ⟨(2, 0, 0), rfl, isLE_order.2 (.inl (by simp [ha]))⟩

theorem reached_normalize_zero {a : Int × Int × Int} (e : Int) (ha : a.1 = -1) :
    Reached a (UnpackedFloat.normalize Format.binary64 0 e .positive) :=
  have hzero : UnpackedFloat.normalize Format.binary64 0 e .positive = .zero .positive := rfl
  hzero ▸ ⟨(0, 0, 0), rfl, isLE_order.2 (.inl (by simp [ha]))⟩

theorem normalize_of_pos {m e : Int} (h : 0 < m) :
    UnpackedFloat.normalize Format.binary64 m e .positive =
      round Format.binary64 .positive m.toNat e := by
  unfold UnpackedFloat.normalize
  rw [compare_gt_iff_gt.2 h]

theorem normalize_of_neg {m e : Int} (h : m < 0) :
    UnpackedFloat.normalize Format.binary64 m e .positive =
      round Format.binary64 .negative (-m).toNat e := by
  unfold UnpackedFloat.normalize
  rw [compare_lt_iff_lt.2 h]

-- Both are brought to the smaller exponent and added there; only then is the sum rounded.
theorem reached_add_finite {s : Sign} {m n : Nat} {e f : Int} {a : Int × Int × Int} {hm : 0 < m}
    {hn : 0 < n} (hx : Canonical m e) (hmost : e ≤ 971) (hf : -1074 ≤ f)
    (ha : rank (.finite s m e hm) = some a) : Reached a
      (UnpackedFloat.add Format.binary64 (.finite s m e hm) (.finite .positive n f hn)) := by
  have hadd : UnpackedFloat.add Format.binary64 (.finite s m e hm) (.finite .positive n f hn) =
      UnpackedFloat.normalize Format.binary64 (s.apply (m <<< (e - min e f).toNat : Nat) +
        (n <<< (f - min e f).toNat : Nat)) (min e f) .positive := rfl
  rw [hadd, Nat.shiftLeft_eq, Nat.shiftLeft_eq]
  have hd : 0 < n * 2 ^ (f - min e f).toNat := Nat.mul_pos hn (Nat.two_pow_pos _)
  have hleast := hx.least
  generalize n * 2 ^ (f - min e f).toNat = d at hd ⊢
  cases s with
  | positive =>
      cases ha
      change Reached _ (UnpackedFloat.normalize _
        (((m * 2 ^ (e - min e f).toNat : Nat) : Int) + d) _ _)
      rw [normalize_of_pos (by omega)]
      exact reached_round hx (by omega) (by omega) (by omega)
  | negative =>
      cases ha
      change Reached _ (UnpackedFloat.normalize _
        (-((m * 2 ^ (e - min e f).toNat : Nat) : Int) + d) _ _)
      rcases Int.lt_trichotomy (-((m * 2 ^ (e - min e f).toNat : Nat) : Int) + d) 0 with
        hneg | hzero | hpos
      · rw [normalize_of_neg hneg]
        exact reached_round_negative hx hmost (by omega) (by omega) (by omega) (by omega)
      · rw [hzero]
        exact reached_normalize_zero _ rfl
      · rw [normalize_of_pos hpos]
        exact reached_round_across rfl (by omega) (by omega)

theorem unpack_of_nonneg {d : Float} (h : 0 ≤ d) : (∃ s, d.toModel.unpack = .zero s) ∨
    (∃ m e hm, d.toModel.unpack = .finite .positive m e hm) ∨
      d.toModel.unpack = .infinity .positive := by
  have hzero : place 0 = some (0, 0, 0) := by decide +kernel
  obtain ⟨a, b, ha, hb, hab⟩ := le_iff.1 h
  rw [hzero, Option.some_inj] at ha
  subst ha
  rw [isLE_order] at hab
  unfold place at hb
  rcases hd : d.toModel.unpack with (_ | _) | _ | s | ⟨_ | _, m, e, hm⟩ <;> rw [hd] at hb <;>
    cases hb
  case zero => exact .inl ⟨s, rfl⟩
  case finite.positive => exact .inr (.inl ⟨m, e, hm, rfl⟩)
  case infinity.positive => exact .inr (.inr rfl)
  case finite.negative => simp at hab
  case infinity.negative => simp at hab

-- Only what lies before all times has no sum with what lies after all.
theorem reached_add {x d : Float} {a : Int × Int × Int} (ha : place x = some a)
    (hx : x.toModel.unpack ≠ .infinity .negative) (hd : 0 ≤ d) :
    Reached a (UnpackedFloat.add Format.binary64 x.toModel.unpack d.toModel.unpack) := by
  have hself := reached_self ha
  unfold place at ha
  rcases unpack_of_nonneg hd with ⟨s, hzero⟩ | ⟨n, f, hn, hfinite⟩ | hinf
  case inl =>
      rw [hzero]
      rcases hunpack : x.toModel.unpack with (_ | _) | _ | s' | _ <;> rw [hunpack] at ha hself
      case zero =>
          cases ha
          cases s <;> cases s' <;> exact ⟨(0, 0, 0), rfl, rfl⟩
      all_goals exact hself
  case inr.inl =>
      rcases hunpack : x.toModel.unpack with (_ | _) | _ | s | ⟨s, m, e, hm⟩ <;>
        rw [hunpack] at ha hself hx
      case finite =>
          obtain ⟨hcanonical, hmost⟩ := canonical_of_unpack hunpack
          rw [hfinite]
          exact reached_add_finite hcanonical hmost (canonical_of_unpack hfinite).1.least ha
      case zero =>
          cases ha
          have hplace : place d = some (1, f, (n : Int)) := by
            rw [place, hfinite]
            rfl
          have hadd : UnpackedFloat.add Format.binary64 (.zero s) d.toModel.unpack =
              d.toModel.unpack := by
            rw [hfinite]
            rfl
          rw [hadd]
          refine ⟨(1, f, (n : Int)), ?_, isLE_order.2 (.inl Int.zero_lt_one)⟩
          rw [pack_unpack_eq]
          exact hplace
      case infinity.negative => exact (hx rfl).elim
      all_goals
          rw [hfinite]
          exact hself
  case inr.inr =>
      rw [hinf]
      rcases hunpack : x.toModel.unpack with (_ | _) | _ | _ | ⟨_ | _, m, e, hm⟩ <;>
        rw [hunpack] at ha hx hself <;> cases ha
      case infinity.positive => exact hself
      case infinity.negative => exact (hx rfl).elim
      all_goals exact reached_infinity (by simp)

theorem le_add {x d : Float} (hnumber : x.isNaN = false)
    (hx : x.toModel.unpack ≠ .infinity .negative) (hd : 0 ≤ d) : x ≤ x + d := by
  rw [isNaN_eq, Option.isNone_eq_false_iff, Option.isSome_iff_exists] at hnumber
  obtain ⟨a, ha⟩ := hnumber
  obtain ⟨b, hb, hab⟩ := reached_add ha hx hd
  exact le_iff.2 ⟨a, b, ha, hb, hab⟩

-- Nothing that is at least 0 takes a time back.
theorem le_add_of_nonneg {x d : Float} (hx : 0 ≤ x) (hd : 0 ≤ d) : x ≤ x + d := by
  refine le_add (number_of_le hx) (fun hinf => ?_) hd
  rcases unpack_of_nonneg hx with ⟨s, h⟩ | ⟨m, e, hm, h⟩ | h <;> rw [h] at hinf <;> cases hinf

theorem number_of_finite {x : Float} (h : x.isFinite = true) : x.isNaN = false := by
  change x.toModel.unpack.isFinite = true at h
  change x.toModel.unpack.isNaN = false
  rcases hunpack : x.toModel.unpack <;> rw [hunpack] at h <;> first | rfl | cases h

theorem le_add_of_finite {x d : Float} (hx : x.isFinite = true) (hd : 0 ≤ d) : x ≤ x + d := by
  refine le_add (number_of_finite hx) (fun hinf => ?_) hd
  change x.toModel.unpack.isFinite = true at hx
  rw [hinf] at hx
  cases hx

-- What is infinite or not a number does not become finite again.
theorem isFinite_of_add {x d : Float} (h : (x + d).isFinite = true) : x.isFinite = true := by
  change (Float.Model.pack
    (UnpackedFloat.add Format.binary64 x.toModel.unpack d.toModel.unpack)).unpack.isFinite = true at h
  change x.toModel.unpack.isFinite = true
  generalize x.toModel.unpack = x at h ⊢
  generalize d.toModel.unpack = d at h
  have hinfinite {u : UnpackedFloat} (hu : u = .notANumber ∨ ∃ s, u = .infinity s) :
      (Float.Model.pack u).unpack.isFinite = false := by
    rcases hu with rfl | ⟨_ | _, rfl⟩ <;> rfl
  rcases x with s | _ | _ | _
  case zero | finite => rfl
  case notANumber =>
      refine absurd h (Bool.eq_false_iff.1 (hinfinite (.inl ?_)))
      cases d <;> rfl
  case infinity =>
      refine absurd h (Bool.eq_false_iff.1 (hinfinite ?_))
      rcases d with s' | _ | _ | _
      case infinity => cases s <;> cases s' <;> first | exact .inl rfl | exact .inr ⟨_, rfl⟩
      case notANumber => exact .inl rfl
      case zero | finite => exact .inr ⟨_, rfl⟩

end Patchbay.Time
