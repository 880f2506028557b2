/-
# What the operations of binary64 keep

Every operation rounds once, and rounding gives no exact law of the real numbers back.  But some
inequalities survive it.

* A difference has the sign of the exact difference (`sub_nonneg`, `sub_nonpos`), unless it is that
  of an infinity from itself, which is no number (`isNaN_sub_self`).  A quotient has the sign of
  its arguments (`div_nonneg`).
* What is bounded by a value of binary64 is not rounded above it: subtracting does not make a
  value greater (`sub_le_self`), nor does a factor up to one (`mul_le_self`), and no fraction
  exceeds one (`fraction_le_one`).

The first four sections say this of unpacked values, before and after they are packed again, and
the last two of `Float`.
-/
import Mathlib
import LargeNeighbourhood.Proofs.Scalar.Rounding
import LargeNeighbourhood.Random.Draw

namespace LargeNeighbourhood

namespace Binary64

open Float.Model UnpackedFloat

variable {s t : Sign} {m n M : Nat} {e f E : Int} {h : 0 < m} {h' : 0 < n}

/-! ## 1. Signs -/

variable {u a b : UnpackedFloat}

/-- A value with this sign; NaN has none. -/
def HasSign (s : Sign) : UnpackedFloat → Prop
  | .notANumber => False
  | .infinity t => t = s
  | .zero t => t = s
  | .finite t _ _ _ => t = s

theorem HasSign.isNaN_eq_false (h : HasSign s u) : u.isNaN = false := by
  cases u with
  | notANumber => exact h.elim
  | _ => rfl

theorem HasSign.nonpos (h : HasSign .negative u) : value u ≤ 0 := by
  cases u with
  | notANumber => exact h.elim
  | infinity t =>
    cases h
    exact bot_le
  | zero t => exact le_refl _
  | finite t m e hm =>
    cases h
    exact EReal.coe_nonpos.2 (neg_nonpos.2 (magnitude_pos hm e).le)

/-- Rounding keeps the sign. -/
theorem hasSign_roundWithAccuracy (s : Sign) (m : Nat) (e : Int) (accuracy : Accuracy) :
    HasSign s (roundWithAccuracy Format.binary64 s m e accuracy) := by
  unfold roundWithAccuracy
  simp only
  split
  · rfl
  · rfl

theorem hasSign_ofFields {exponent : BitVec 11} {mantissa : BitVec 52}
    (h : exponent = -1#11 → mantissa = 0#52) : HasSign s (ofFields s exponent mantissa) := by
  unfold ofFields
  split
  · rename_i hlarge
    rw [if_pos (h hlarge)]
    rfl
  · split
    · split
      · rfl
      · rfl
    · rfl

/-- A finite value is packed from three fields, and if the exponent is the greatest there is, the
mantissa is zero. -/
theorem exists_pack_finite (s : Sign) (h : 0 < m) (e : Int) :
    ∃ exponent mantissa, UnpackedFloat.pack Format.binary64 (.finite s m e h)
        = packComponents Format.binary64 s exponent mantissa ∧
      (exponent = -1#11 → mantissa = 0#52) := by
  by_cases hlarge : 2 ^ 11 ≤ (e + 1023 + 52).toNat + 1
  · exact ⟨-1#11, 0#52, if_pos hlarge, fun _ => rfl⟩
  · by_cases hbits : m.log2 + 1 = 53
    · refine ⟨BitVec.ofNat 11 (e + 1023 + 52).toNat, BitVec.ofNat 52 m,
        (if_neg hlarge).trans (if_pos hbits), fun hmax => ?_⟩
      have hexponent := congrArg BitVec.toNat hmax
      rw [BitVec.toNat_ofNat, Nat.mod_eq_of_lt (by omega)] at hexponent
      have heq : (e + 1023 + 52).toNat = 2047 := hexponent
      omega
    · exact ⟨0#11, BitVec.ofNat 52 m, (if_neg hlarge).trans (if_neg hbits),
        fun hmax => absurd hmax (by decide)⟩

/-- Packing keeps the sign. -/
theorem HasSign.unpack_pack (hu : HasSign s u) : HasSign s (Float.Model.pack u).unpack := by
  cases u with
  | notANumber => exact hu.elim
  | infinity t =>
    rw [unpack_pack_infinity]
    exact hu
  | zero t =>
    rw [unpack_pack_zero]
    exact hu
  | finite t m e hm =>
    cases hu
    obtain ⟨exponent, mantissa, hpack, hmax⟩ := exists_pack_finite s hm e
    rw [unpack_pack_of_eq hpack]
    exact hasSign_ofFields hmax

/-! ## 2. Differences -/

/-- A value on the side of zero on which the difference of two numbers lies. -/
inductive Sides (x y : EReal) : UnpackedFloat → Prop
  | equal {t : Sign} (eq : x = y) : Sides x y (.zero t)
  | greater {u : UnpackedFloat} (lt : y < x) (sign : HasSign .positive u) : Sides x y u
  | less {u : UnpackedFloat} (lt : x < y) (sign : HasSign .negative u) : Sides x y u

theorem apply_mul_zpow (s : Sign) (m : Nat) (e : Int) :
    ((s.apply (m : Int) : Int) : ℝ) * 2 ^ e = signed s (magnitude m e) := by
  cases s with
  | positive => simp [Sign.apply, signed, magnitude]
  | negative => simp [Sign.apply, signed, magnitude]

/-- The difference of two finite values is computed without loss before it is rounded. -/
theorem exists_sub_finite (s t : Sign) (e f : Int) (h : 0 < m) (h' : 0 < n) :
    ∃ (z k : Int), UnpackedFloat.sub Format.binary64 (.finite s m e h) (.finite t n f h')
        = UnpackedFloat.normalize Format.binary64 z k .positive ∧
      (z : ℝ) * 2 ^ k = signed s (magnitude m e) - signed t (magnitude n f) := by
  refine ⟨s.apply ((m <<< (e - min e f).toNat : Nat) : Int)
    - t.apply ((n <<< (f - min e f).toNat : Nat) : Int), min e f, rfl, ?_⟩
  rw [Int.cast_sub, sub_mul, apply_mul_zpow, apply_mul_zpow, magnitude_shiftLeft (min_le_left e f),
    magnitude_shiftLeft (min_le_right e f)]

theorem normalize_of_neg {z : Int} (hz : z < 0) (k : Int) (s : Sign) :
    UnpackedFloat.normalize Format.binary64 z k s
      = round Format.binary64 .negative (-z).toNat k := by
  rw [UnpackedFloat.normalize, compare_lt_iff_lt.2 hz]

theorem normalize_of_pos {z : Int} (hz : 0 < z) (k : Int) (s : Sign) :
    UnpackedFloat.normalize Format.binary64 z k s = round Format.binary64 .positive z.toNat k := by
  rw [UnpackedFloat.normalize, compare_gt_iff_gt.2 hz]

/-- Normalizing keeps the side of zero. -/
theorem sides_normalize {x y : ℝ} {z k : Int} (h : (z : ℝ) * 2 ^ k = x - y) :
    Sides x y (UnpackedFloat.normalize Format.binary64 z k .positive) := by
  have hpow : (0 : ℝ) < 2 ^ k := zpow_pos two_pos k
  rcases lt_trichotomy z 0 with hneg | rfl | hpos
  · rw [normalize_of_neg hneg]
    refine .less (EReal.coe_lt_coe_iff.2 ?_) (hasSign_roundWithAccuracy _ _ _ _)
    rw [← sub_neg, ← h]
    exact mul_neg_of_neg_of_pos (Int.cast_lt_zero.2 hneg) hpow
  · rw [Int.cast_zero, zero_mul] at h
    exact .equal (congrArg _ (sub_eq_zero.1 h.symm))
  · rw [normalize_of_pos hpos]
    refine .greater (EReal.coe_lt_coe_iff.2 ?_) (hasSign_roundWithAccuracy _ _ _ _)
    rw [← sub_pos, ← h]
    exact mul_pos (Int.cast_pos.2 hpos) hpow

/-- **A difference has the sign of the exact difference**, unless both values are the same
infinity. -/
theorem sides_sub (ha : a.isNaN = false) (hb : b.isNaN = false) (h : ¬(a.isInf = true ∧ a = b)) :
    Sides (value a) (value b) (UnpackedFloat.sub Format.binary64 a b) := by
  cases a with
  | notANumber => exact absurd ha (by decide)
  | infinity s =>
    cases b with
    | notANumber => exact absurd hb (by decide)
    | infinity t =>
      cases s with
      | positive =>
        cases t with
        | positive => exact absurd ⟨rfl, rfl⟩ h
        | negative => exact .greater bot_lt_top rfl
      | negative =>
        cases t with
        | positive => exact .less bot_lt_top rfl
        | negative => exact absurd ⟨rfl, rfl⟩ h
    | zero t =>
      cases s with
      | positive => exact .greater (EReal.coe_lt_top _) rfl
      | negative => exact .less (EReal.bot_lt_coe _) rfl
    | finite t n f hn =>
      cases s with
      | positive => exact .greater (EReal.coe_lt_top _) rfl
      | negative => exact .less (EReal.bot_lt_coe _) rfl
  | zero s =>
    cases b with
    | notANumber => exact absurd hb (by decide)
    | infinity t =>
      cases t with
      | positive => exact .less (EReal.coe_lt_top _) rfl
      | negative => exact .greater (EReal.bot_lt_coe _) rfl
    | zero t => cases s <;> cases t <;> exact .equal rfl
    | finite t n f hn =>
      have hpos := magnitude_pos hn f
      cases t with
      | positive => exact .less (EReal.coe_lt_coe_iff.2 hpos) rfl
      | negative => exact .greater (EReal.coe_lt_coe_iff.2 (neg_lt_zero.2 hpos)) rfl
  | finite s m e hm =>
    have hpos := magnitude_pos hm e
    cases b with
    | notANumber => exact absurd hb (by decide)
    | infinity t =>
      cases t with
      | positive => exact .less (EReal.coe_lt_top _) rfl
      | negative => exact .greater (EReal.bot_lt_coe _) rfl
    | zero t =>
      cases s with
      | positive => exact .greater (EReal.coe_lt_coe_iff.2 hpos) rfl
      | negative => exact .less (EReal.coe_lt_coe_iff.2 (neg_lt_zero.2 hpos)) rfl
    | finite t n f hn =>
      obtain ⟨z, k, hsub, hexact⟩ := exists_sub_finite s t e f hm hn
      rw [hsub]
      exact sides_normalize hexact

/-! ## 3. Bounds -/

/-- A value that is not negative.  The sign of a zero does not count. -/
inductive Nonneg : UnpackedFloat → Prop
  | zero (t : Sign) : Nonneg (.zero t)
  | infinity : Nonneg (.infinity .positive)
  | finite {m : Nat} {e : Int} (h : 0 < m) : Nonneg (.finite .positive m e h)

theorem HasSign.toNonneg (hu : HasSign .positive u) : Nonneg u := by
  cases u with
  | notANumber => exact hu.elim
  | infinity s =>
    cases hu
    exact .infinity
  | zero s => exact .zero s
  | finite s m e h =>
    cases hu
    exact .finite h

theorem Nonneg.isNaN_eq_false (hu : Nonneg u) : u.isNaN = false := by
  cases hu <;> rfl

theorem Nonneg.value_nonneg (hu : Nonneg u) : 0 ≤ value u := by
  cases hu with
  | zero t => exact le_refl _
  | infinity => exact le_top
  | finite h => exact EReal.coe_nonneg.2 (magnitude_nonneg _ _)

/-- Packing keeps a value from being negative. -/
theorem Nonneg.unpack_pack (hu : Nonneg u) : Nonneg (Float.Model.pack u).unpack := by
  cases hu with
  | zero t =>
    rw [unpack_pack_zero]
    exact .zero t
  | infinity =>
    rw [unpack_pack_infinity]
    exact .infinity
  | @finite m e h =>
    have hsign : HasSign .positive (.finite .positive m e h) := rfl
    exact hsign.unpack_pack.toNonneg

theorem nonneg_of_value (hu : u.isNaN = false) (hle : 0 ≤ value u) : Nonneg u := by
  cases u with
  | notANumber => cases hu
  | infinity s =>
    cases s with
    | positive => exact .infinity
    | negative => exact absurd hle (not_le_of_gt (EReal.bot_lt_coe 0))
  | zero s => exact .zero s
  | finite s m e h =>
    cases s with
    | positive => exact .finite h
    | negative =>
      have hneg := neg_lt_zero.2 (magnitude_pos h e)
      exact absurd hle (not_le_of_gt (EReal.coe_lt_coe_iff.2 hneg))

/-- A number up to some bound. -/
structure AtMost (x : EReal) (u : UnpackedFloat) : Prop where
  isNaN : u.isNaN = false
  le : value u ≤ x

theorem Canonical.within (hu : Canonical (.finite s m e h)) : Within s m e (.finite s m e h) :=
  .finite hu.1 hu.2.1 (le_refl _) (le_refl _)

theorem HasSign.atMost {x : EReal} (hu : HasSign .negative u) (hx : 0 ≤ x) :
    AtMost x (Float.Model.pack u).unpack :=
  ⟨hu.unpack_pack.isNaN_eq_false, hu.unpack_pack.nonpos.trans hx⟩

theorem Within.atMost (hu : Within .positive M E u) (hE : E ≤ 971) :
    AtMost (magnitude M E : ℝ) (Float.Model.pack u).unpack :=
  ⟨(hu.unpack_pack hE).isNaN_eq_false, (hu.unpack_pack hE).value_le⟩

theorem atMost_zero (m : Nat) (e : Int) (s : Sign) :
    AtMost (magnitude m e : ℝ) (Float.Model.pack (.zero s)).unpack := by
  rw [unpack_pack_zero]
  exact ⟨rfl, EReal.coe_nonneg.2 (magnitude_nonneg m e)⟩

theorem Sides.nonneg {x y : EReal} (hu : Sides x y u) (hle : y ≤ x) :
    Nonneg (Float.Model.pack u).unpack := by
  cases hu with
  | equal => exact (Nonneg.zero _).unpack_pack
  | greater _ sign => exact sign.toNonneg.unpack_pack
  | less lt => exact absurd hle (not_le_of_gt lt)

theorem Sides.nonpos {x y : EReal} (hu : Sides x y u) (hle : x ≤ y) :
    AtMost 0 (Float.Model.pack u).unpack := by
  cases hu with
  | equal =>
    rw [unpack_pack_zero]
    exact ⟨rfl, le_refl _⟩
  | greater lt => exact absurd hle (not_le_of_gt lt)
  | less _ sign => exact sign.atMost (le_refl _)

/-- What is subtracted does not make a value greater. -/
theorem atMost_sub (ha : Canonical (.finite .positive m e h)) (hb : Nonneg b) :
    AtMost (magnitude m e : ℝ) (Float.Model.pack
      (UnpackedFloat.sub Format.binary64 (.finite .positive m e h) b)).unpack := by
  have hnonneg : (0 : EReal) ≤ (magnitude m e : ℝ) := EReal.coe_nonneg.2 (magnitude_nonneg m e)
  cases hb with
  | zero t => exact ha.within.atMost ha.2.2.1
  | infinity => exact HasSign.atMost rfl hnonneg
  | @finite n f h' =>
    obtain ⟨z, k, hsub, hexact⟩ := exists_sub_finite .positive .positive e f h h'
    rw [hsub]
    rcases lt_trichotomy z 0 with hneg | rfl | hpos
    · rw [normalize_of_neg hneg]
      exact HasSign.atMost (hasSign_roundWithAccuracy _ _ _ _) hnonneg
    · exact atMost_zero m e .positive
    · have hcast : ((z.toNat : Nat) : ℝ) = z := by exact_mod_cast Int.toNat_of_nonneg hpos.le
      have hle : magnitude z.toNat k ≤ magnitude m e :=
        calc magnitude z.toNat k = magnitude m e - magnitude n f := by
              rw [magnitude, hcast, hexact]
              rfl
          _ ≤ magnitude m e := sub_le_self _ (magnitude_nonneg n f)
      rw [normalize_of_pos hpos]
      exact (round_within .positive (by omega) hle ha.1 ha.2.1).atMost ha.2.2.1

/-! ## 4. Products and quotients -/

/-- A factor that is at most one does not make a value greater. -/
theorem Within.mul (hu : Within .positive M E u) (hM : M < 2 ^ 53) (hE : -1074 ≤ E)
    (hb : Nonneg b) (hle : value b ≤ 1) :
    Within .positive M E (UnpackedFloat.mul Format.binary64 u b) := by
  cases hb with
  | zero t =>
    cases hu with
    | zero => exact .zero
    | finite => exact .zero
  | infinity => exact absurd hle (not_le_of_gt (EReal.coe_lt_top 1))
  | @finite n f h' =>
    have hone : magnitude n f ≤ 1 := EReal.coe_le_coe_iff.1 hle
    have hf : f ≤ 0 := by
      have hlog := log2_add_le h' (hone.trans_eq magnitude_one.symm)
      have hzero : Nat.log2 1 = 0 := by decide
      omega
    cases hu with
    | zero => exact .zero
    | @finite m e h bits least exponent le =>
      have hprod : magnitude (m * n) (e + f) ≤ magnitude M E := by
        rw [magnitude_mul]
        exact (mul_le_of_le_one_right (magnitude_nonneg m e) hone).trans le
      exact roundWithAccuracy_within .positive (floors_exact (m * n) (e + f)) hprod hM hE
        (by omega)

/-- A quotient of mantissas leaves a remainder, and says so. -/
theorem floors_div (N : Nat) (hn : 0 < n) (k : Int) :
    Floors (.ofMantissaAndAccuracy (N / n) (accuracyOfFraction (N % n) n)) k
      (magnitude N k / n) := by
  have hpos : (0 : ℝ) < n := Nat.cast_pos.2 hn
  have hscaled : magnitude (N / n) k * n = magnitude (N / n * n) k := by
    unfold magnitude
    push_cast
    ring
  refine ⟨?_, fun hbits => ?_⟩
  · rw [mantissa_ofMantissaAndAccuracy, le_div_iff₀ hpos, hscaled, magnitude_le_iff_left]
    exact Nat.div_mul_le_self N n
  · have hremainder : N % n ≠ 0 := by
      intro hzero
      rw [accuracyOfFraction, if_pos hzero] at hbits
      simp [ExtendedMantissa.ofMantissaAndAccuracy] at hbits
    rw [mantissa_ofMantissaAndAccuracy, lt_div_iff₀ hpos, hscaled, magnitude_lt_iff_left]
    have hdivmod := Nat.div_add_mod' N n
    omega

/-- A quotient of finite values is computed up to a remainder before it is rounded. -/
theorem exists_div_finite (s t : Sign) (e f : Int) (h : 0 < m) (h' : 0 < n) :
    ∃ q k accuracy, UnpackedFloat.div Format.binary64 (.finite s m e h) (.finite t n f h')
        = roundWithAccuracy Format.binary64 (s / t) q k accuracy ∧
      k ≤ Format.binary64.targetExponent (totalExponent m e - totalExponent n f) ∧
      Floors (.ofMantissaAndAccuracy q accuracy) k (magnitude m e / magnitude n f) := by
  obtain ⟨k, hk⟩ : ∃ k, k = min (e - f) (Format.binary64.targetExponent
      (totalExponent m e - totalExponent n f)) := ⟨_, rfl⟩
  refine ⟨m <<< (e - f - k).toNat / n, k, accuracyOfFraction (m <<< (e - f - k).toNat % n) n,
    by rw [hk]; rfl, by omega, ?_⟩
  have hquotient : magnitude (m <<< (e - f - k).toNat) k / n = magnitude m e / magnitude n f := by
    rw [magnitude_shiftLeft (hk.trans_le (min_le_left _ _))]
    unfold magnitude
    rw [zpow_sub₀ two_ne_zero, mul_div_assoc', div_div, mul_comm (2 ^ f : ℝ)]
  rw [← hquotient]
  exact floors_div _ h' k

/-- One, with as many bits as fit. -/
theorem magnitude_one_normal : magnitude (2 ^ 52) (-52) = 1 := by norm_num [magnitude]

/-- A quotient is at most one if the divisor is no smaller. -/
theorem atMost_div (h : 0 < m) (h' : 0 < n) (hle : magnitude m e ≤ magnitude n f) :
    AtMost 1 (Float.Model.pack (UnpackedFloat.div Format.binary64 (.finite .positive m e h)
      (.finite .positive n f h'))).unpack := by
  obtain ⟨q, k, accuracy, hdiv, htarget, hfloors⟩ :=
    exists_div_finite .positive .positive e f h h'
  have hquotient : magnitude m e / magnitude n f ≤ magnitude (2 ^ 52) (-52) := by
    rw [magnitude_one_normal]
    exact div_le_one_of_le₀ hle (magnitude_nonneg n f)
  have hk : k ≤ -52 := by
    have hlog := log2_add_le h hle
    rw [targetExponent_eq, totalExponent, totalExponent] at htarget
    omega
  have hround := roundWithAccuracy_within .positive hfloors hquotient (by decide) (by decide) hk
  have hatMost := hround.atMost (by decide)
  rw [magnitude_one_normal, EReal.coe_one] at hatMost
  rw [hdiv]
  exact hatMost

theorem Within.div_atMost (hu : Within .positive n f u) (h' : 0 < n) :
    AtMost 1 (Float.Model.pack
      (UnpackedFloat.div Format.binary64 u (.finite .positive n f h'))).unpack := by
  cases hu with
  | zero =>
    show AtMost 1 (Float.Model.pack (.zero _)).unpack
    rw [unpack_pack_zero]
    exact ⟨rfl, EReal.coe_nonneg.2 zero_le_one⟩
  | @finite m e h bits least exponent le => exact atMost_div h h' le

/-- A quotient has the sign of its arguments. -/
theorem Nonneg.div {n : Nat} {f : Int} (hu : Nonneg u) (h' : 0 < n) :
    Nonneg (UnpackedFloat.div Format.binary64 u (.finite .positive n f h')) := by
  cases hu with
  | zero t => exact .zero _
  | infinity => exact .infinity
  | finite h => exact (hasSign_roundWithAccuracy _ _ _ _).toNonneg

/-! ## 5. Operations -/

variable {x y : Float}

theorem val_zero : val 0 = 0 := rfl

theorem val_one : val 1 = 1 := by
  have hunpack : (1 : Float).toModel.unpack = .finite .positive (2 ^ 52) (-52) (by decide) := rfl
  rw [val, hunpack, value, signed, magnitude_one_normal, EReal.coe_one]

theorem le_of_atMost (h : AtMost (val y) x.toModel.unpack) (hy : y.isNaN = false) : x ≤ y :=
  (le_iff_val h.isNaN hy).2 h.le

theorem nonneg_iff : 0 ≤ x ↔ Nonneg x.toModel.unpack := by
  constructor
  · intro hle
    obtain ⟨hzero, hx⟩ := numbers_binary64.of_le hle
    exact nonneg_of_value hx ((le_iff_val hzero hx).1 hle)
  · intro h
    exact (le_iff_val numbers_binary64.zero h.isNaN_eq_false).2 h.value_nonneg

theorem eq_of_unpack_eq (h : x.toModel.unpack = y.toModel.unpack) : x = y := by
  obtain ⟨⟨bits, valid⟩⟩ := x
  obtain ⟨⟨bits', valid'⟩⟩ := y
  have hbits : bits = bits' := UInt64.toBitVec_inj.1 ((unpack_inj_of_valid valid valid').1 h)
  subst hbits
  rfl

theorem value_lt_top (h : u.isFinite = true) : value u < ⊤ := by
  cases u with
  | zero s => exact EReal.coe_lt_top _
  | finite s m e hm => exact EReal.coe_lt_top _
  | _ => cases h

theorem isNaN_of_isFinite (h : x.isFinite = true) : x.isNaN = false := by
  have hfinite : x.toModel.unpack.isFinite = true := h
  show x.toModel.unpack.isNaN = false
  cases hu : x.toModel.unpack with
  | notANumber =>
    rw [hu] at hfinite
    cases hfinite
  | _ => rfl

/-- Between zero and a finite value all are finite. -/
theorem isFinite_of_le (hx : 0 ≤ x) (hle : x ≤ y) (hfinite : y.isFinite = true) :
    x.isFinite = true := by
  obtain ⟨hxn, hyn⟩ := numbers_binary64.of_le hle
  have hnonneg := nonneg_iff.1 hx
  have hlt : value x.toModel.unpack < ⊤ :=
    ((le_iff_val hxn hyn).1 hle).trans_lt (value_lt_top hfinite)
  show x.toModel.unpack.isFinite = true
  cases hu : x.toModel.unpack with
  | zero s => rfl
  | finite s m e hm => rfl
  | notANumber =>
    rw [hu] at hnonneg
    cases hnonneg
  | infinity s =>
    rw [hu] at hnonneg hlt
    cases hnonneg
    exact absurd hlt (lt_irrefl _)

/-- A positive finite value, unpacked. -/
theorem exists_unpack_of_pos (h : 0 < x) (hfinite : x.isFinite = true) :
    ∃ (m : Nat) (e : Int) (hm : 0 < m), x.toModel.unpack = .finite .positive m e hm ∧
      Canonical (.finite .positive m e hm) ∧ val x = (magnitude m e : ℝ) := by
  obtain ⟨hzero, hx⟩ := numbers_binary64.of_lt h
  have hpos := (lt_iff_val hzero hx).1 h
  have hnonneg := nonneg_of_value hx hpos.le
  have hcanonical := canonical_unpack x.toModel
  have hfin : x.toModel.unpack.isFinite = true := hfinite
  unfold val at hpos ⊢
  cases hu : x.toModel.unpack with
  | notANumber =>
    rw [hu] at hfin
    cases hfin
  | infinity s =>
    rw [hu] at hfin
    cases hfin
  | zero s =>
    rw [hu] at hpos
    exact absurd hpos (lt_irrefl _)
  | finite s m e hm =>
    rw [hu] at hnonneg hcanonical
    cases hnonneg
    exact ⟨m, e, hm, rfl, hcanonical, rfl⟩

/-- **What is subtracted does not make a value greater.** -/
theorem sub_le_self (hx : 0 < x) (hfinite : x.isFinite = true) (hy : 0 ≤ y) : x - y ≤ x := by
  obtain ⟨m, e, hm, hu, hcanonical, hval⟩ := exists_unpack_of_pos hx hfinite
  have hatMost := atMost_sub hcanonical (nonneg_iff.1 hy)
  rw [← hu, ← hval] at hatMost
  exact le_of_atMost hatMost (numbers_binary64.of_lt hx).2

/-- **A factor up to one does not make a value greater.** -/
theorem mul_le_self (hx : 0 < x) (hfinite : x.isFinite = true) (hy : 0 ≤ y) (hle : y ≤ 1) :
    x * y ≤ x := by
  obtain ⟨m, e, hm, hu, hcanonical, hval⟩ := exists_unpack_of_pos hx hfinite
  have hone := (le_iff_val (numbers_binary64.of_le hle).1 numbers_binary64.one).1 hle
  rw [val_one] at hone
  have hproduct := hcanonical.within.mul hcanonical.1 hcanonical.2.1 (nonneg_iff.1 hy) hone
  have hatMost := hproduct.atMost hcanonical.2.2.1
  rw [← hu, ← hval] at hatMost
  exact le_of_atMost hatMost (numbers_binary64.of_lt hx).2

/-- A quotient of what is not negative is not negative. -/
theorem div_nonneg (hx : 0 ≤ x) (hy : 0 < y) (hfinite : y.isFinite = true) : 0 ≤ x / y := by
  obtain ⟨n, f, hn, hv, -, -⟩ := exists_unpack_of_pos hy hfinite
  have hquotient := ((nonneg_iff.1 hx).div (f := f) hn).unpack_pack
  rw [← hv] at hquotient
  exact nonneg_iff.2 hquotient

/-- A difference has the sign of the exact difference, unless it is that of an infinity from
itself. -/
theorem sides_sub_val (hx : x.isNaN = false) (hy : y.isNaN = false)
    (hne : ¬(x.isInf = true ∧ x = y)) :
    Sides (val x) (val y)
      (UnpackedFloat.sub Format.binary64 x.toModel.unpack y.toModel.unpack) :=
  sides_sub hx hy fun ⟨hinf, heq⟩ => hne ⟨hinf, eq_of_unpack_eq heq⟩

theorem sub_nonneg (hle : y ≤ x) (hne : ¬(x.isInf = true ∧ x = y)) : 0 ≤ x - y := by
  obtain ⟨hy, hx⟩ := numbers_binary64.of_le hle
  exact nonneg_iff.2 ((sides_sub_val hx hy hne).nonneg ((le_iff_val hy hx).1 hle))

theorem sub_nonpos (hle : x ≤ y) (hne : ¬(x.isInf = true ∧ x = y)) : x - y ≤ 0 := by
  obtain ⟨hx, hy⟩ := numbers_binary64.of_le hle
  have hatMost := (sides_sub_val hx hy hne).nonpos ((le_iff_val hx hy).1 hle)
  rw [← val_zero] at hatMost
  exact le_of_atMost hatMost numbers_binary64.zero

theorem eq_notANumber (h : u.isNaN = true) : u = .notANumber := by
  cases u with
  | notANumber => rfl
  | _ => cases h

/-- **An infinity less itself is no number.** -/
theorem isNaN_sub_self (h : x.isInf = true) : (x - x).isNaN = true := by
  have hinf : x.toModel.unpack.isInf = true := h
  have hsub : UnpackedFloat.sub Format.binary64 x.toModel.unpack x.toModel.unpack
      = .notANumber := by
    cases hu : x.toModel.unpack with
    | infinity s => cases s <;> rfl
    | _ =>
      rw [hu] at hinf
      cases hinf
  show (Float.Model.pack (UnpackedFloat.sub Format.binary64 _ _)).unpack.isNaN = true
  rw [hsub, unpack_pack_notANumber]
  rfl

theorem isNaN_div (h : x.isNaN = true) (y : Float) : (x / y).isNaN = true := by
  have hnan : x.toModel.unpack = .notANumber := eq_notANumber h
  show (Float.Model.pack (UnpackedFloat.div Format.binary64 _ _)).unpack.isNaN = true
  rw [hnan, UnpackedFloat.div, unpack_pack_notANumber]
  rfl

/-! ## 6. Fractions -/

theorem ofNat_eq_mul (hn : n < 2 ^ 53) : Float.ofNat n = n.toUInt64.toFloat * 1 := by
  show Float.ofScientific n false 0 = _
  rw [Float.ofScientific, dif_pos ⟨hn, by decide⟩]
  rfl

/-- The natural numbers up to `2³²` do not exceed it in binary64. -/
theorem within_ofNat (hn : n ≤ 2 ^ 32) :
    Within .positive (2 ^ 52) (-20) (Float.ofNat n).toModel.unpack := by
  have hnat : n.toUInt64.toNat = n := UInt64.toNat_ofNat_of_lt' (hn.trans_lt (by decide))
  have hbound : Within .positive (2 ^ 52) (-20)
      (UnpackedFloat.normalize Format.binary64 (n.toUInt64.toNat : Int) 0 .positive) := by
    rw [hnat]
    rcases Nat.eq_zero_or_pos n with rfl | hpos
    · exact .zero
    · rw [normalize_of_pos (by omega)]
      have hle : magnitude n 0 ≤ magnitude (2 ^ 52) (-20) :=
        calc magnitude n 0 ≤ magnitude (2 ^ 32) 0 := magnitude_le_iff_left.2 hn
          _ = magnitude (2 ^ 52) (-20) := magnitude_add (2 ^ 32) 20 (-20)
      exact round_within .positive (by omega) hle (by decide) (by decide)
  have hone : value (1 : Float).toModel.unpack ≤ 1 := val_one.le
  rw [ofNat_eq_mul (by omega)]
  exact ((hbound.unpack_pack (by decide)).mul (by decide) (by decide)
    (nonneg_iff.1 (by decide)) hone).unpack_pack (by decide)

/-- **No fraction exceeds one**, as a fraction of binary64 either. -/
theorem fraction_le_one (w : UInt32) : (Draw.fraction w : Float) ≤ 1 := by
  have hw : w.toNat ≤ 2 ^ 32 := w.toNat_lt.le
  have hatMost := (within_ofNat hw).div_atMost (by decide)
  rw [← val_one] at hatMost
  exact le_of_atMost hatMost numbers_binary64.one

end Binary64

end LargeNeighbourhood
