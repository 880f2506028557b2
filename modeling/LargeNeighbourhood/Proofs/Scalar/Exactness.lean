/-
# Results that need no rounding

An operation of binary64 rounds its exact result, and a result that is itself a value of binary64
stays what it is: the bits that are dropped are zeros, so nothing is carried up, and there is no
second bit too many (`roundWithAccuracy_exact`).

Two operations are exact for this reason.  A natural number below `2⁵³` is a value of binary64
(`unpack_ofNat`), and dividing by a power of two only moves the exponent (`div_two_pow`).
Together they make a drawn fraction exact: it is the word over `2³²`, not a number close to it
(`val_fraction`).
-/
import Mathlib
import LargeNeighbourhood.Proofs.Scalar.Operations

namespace LargeNeighbourhood

namespace Binary64

open Float.Model UnpackedFloat

variable {s : Sign} {m n : Nat} {e f : Int} {h : 0 < m}

/-! ## 1. Dropping zeros -/

/-- Dropping zeros loses nothing. -/
theorem ofMantissaAndAccuracy_shiftRight (m k : Nat) :
    ExtendedMantissa.ofMantissaAndAccuracy (m * 2 ^ k) .exact >>> k
      = .ofMantissaAndAccuracy m .exact := by
  induction k generalizing m with
  | zero => rw [pow_zero, mul_one]; rfl
  | succ k ih =>
    have hlast : ExtendedMantissa.ofMantissaAndAccuracy (m * 2 ^ (k + 1)) .exact >>> k
        = .ofMantissaAndAccuracy (m * 2) .exact := by
      rw [pow_succ', ← mul_assoc, ih]
    show (ExtendedMantissa.ofMantissaAndAccuracy (m * 2 ^ (k + 1)) .exact >>> k).shiftRightOne = _
    rw [hlast]
    simp [ExtendedMantissa.shiftRightOne, ExtendedMantissa.ofMantissaAndAccuracy]

theorem log2_mul_two_pow (hm : 2 ^ 52 ≤ m) (hm' : m < 2 ^ 53) (k : Nat) :
    (m * 2 ^ k).log2 = 52 + k := by
  have hpos : m * 2 ^ k ≠ 0 := (Nat.mul_pos (by omega) (Nat.two_pow_pos k)).ne'
  rw [Nat.log2_eq_iff hpos]
  constructor
  · rw [pow_add]
    exact Nat.mul_le_mul_right _ hm
  · rw [show 52 + k + 1 = 53 + k by omega, pow_add]
    exact Nat.mul_lt_mul_of_pos_right hm' (Nat.two_pow_pos k)

/-- Zeros behind a mantissa of 53 bits are what is dropped of it. -/
theorem shiftToTargetExponent_exact (hm : 2 ^ 52 ≤ m) (hm' : m < 2 ^ 53) (he : -1074 ≤ e)
    (k : Nat) :
    shiftToTargetExponent Format.binary64 (m * 2 ^ k) (e - k) .exact
      = (.ofMantissaAndAccuracy m .exact, e) := by
  have htarget : Format.binary64.targetExponent (totalExponent (m * 2 ^ k) (e - k)) = e := by
    rw [targetExponent_eq, totalExponent, log2_mul_two_pow hm hm']
    omega
  have hshift : (e - (e - k)).toNat = k := by omega
  unfold shiftToTargetExponent shiftToExponent
  simp only [htarget, hshift, ofMantissaAndAccuracy_shiftRight, sub_add_cancel]

/-- **A value of binary64 is not rounded**, however many zeros follow its mantissa. -/
theorem roundWithAccuracy_exact (s : Sign) (hm : 2 ^ 52 ≤ m) (hm' : m < 2 ^ 53) (he : -1074 ≤ e)
    (k : Nat) :
    roundWithAccuracy Format.binary64 s (m * 2 ^ k) (e - k) .exact
      = .finite s m e (Nat.lt_of_lt_of_le (by decide) hm) := by
  have hsecond : shiftToTargetExponent Format.binary64 m e .exact
      = (.ofMantissaAndAccuracy m .exact, e) := by
    have hzero := shiftToTargetExponent_exact hm hm' he 0
    rwa [pow_zero, mul_one, Nat.cast_zero, sub_zero] at hzero
  have hrounded : (ExtendedMantissa.ofMantissaAndAccuracy m .exact).roundedMantissa = m := rfl
  unfold roundWithAccuracy
  simp only [shiftToTargetExponent_exact hm hm' he, hrounded, hsecond,
    mantissa_ofMantissaAndAccuracy]
  rw [dif_neg (by omega)]

/-! ## 2. Natural numbers -/

/-- The mantissa of a natural number, with 53 bits. -/
theorem shiftLeft_bounds (hn : 0 < n) (hn' : n < 2 ^ 53) :
    2 ^ 52 ≤ n <<< (52 - n.log2) ∧ n <<< (52 - n.log2) < 2 ^ 53 := by
  have hbits : n.log2 < 53 := (Nat.log2_lt hn.ne').2 hn'
  obtain ⟨hlow, hhigh⟩ := (Nat.log2_eq_iff hn.ne').1 (rfl : n.log2 = n.log2)
  rw [Nat.shiftLeft_eq]
  constructor
  · calc 2 ^ 52 = 2 ^ n.log2 * 2 ^ (52 - n.log2) := by rw [← pow_add]; congr 1; omega
      _ ≤ n * 2 ^ (52 - n.log2) := Nat.mul_le_mul_right _ hlow
  · calc n * 2 ^ (52 - n.log2) < 2 ^ (n.log2 + 1) * 2 ^ (52 - n.log2) :=
          Nat.mul_lt_mul_of_pos_right hhigh (Nat.two_pow_pos _)
      _ = 2 ^ 53 := by rw [← pow_add]; congr 1; omega

/-- A natural number is taken over without rounding. -/
theorem round_natural (s : Sign) (hn : 0 < n) (hn' : n < 2 ^ 53) :
    UnpackedFloat.round Format.binary64 s n 0 = .finite s (n <<< (52 - n.log2)) (n.log2 - 52)
      (Nat.shiftLeft_pos_iff.2 hn) := by
  have hbits : n.log2 < 53 := (Nat.log2_lt hn.ne').2 hn'
  obtain ⟨hlow, hhigh⟩ := shiftLeft_bounds hn hn'
  have htarget : Format.binary64.targetExponent (totalExponent n 0) = n.log2 - 52 := by
    rw [targetExponent_eq, totalExponent]
    omega
  have hshift : (0 - ((n.log2 : Int) - 52)).toNat = 52 - n.log2 := by omega
  have hexponent : (0 : Int) - ((52 - n.log2 : Nat) : Int) = n.log2 - 52 := by omega
  have hexact := roundWithAccuracy_exact s hlow hhigh (e := n.log2 - 52) (by omega) 0
  rw [pow_zero, mul_one, Nat.cast_zero, sub_zero] at hexact
  unfold UnpackedFloat.round decreaseExponent
  simp only [htarget, hshift, hexponent]
  exact hexact

/-- One as a factor changes nothing. -/
theorem mul_one_exact (hm : 2 ^ 52 ≤ m) (hm' : m < 2 ^ 53) (he : -1074 ≤ e) :
    UnpackedFloat.mul Format.binary64 (.finite .positive m e h) (1 : Float).toModel.unpack
      = .finite .positive m e h :=
  roundWithAccuracy_exact .positive hm hm' he 52

/-- **A natural number below `2⁵³` is a value of binary64.** -/
theorem unpack_ofNat (hn : 0 < n) (hn' : n < 2 ^ 53) :
    (Float.ofNat n).toModel.unpack
      = .finite .positive (n <<< (52 - n.log2)) (n.log2 - 52) (Nat.shiftLeft_pos_iff.2 hn) := by
  have hbits : n.log2 < 53 := (Nat.log2_lt hn.ne').2 hn'
  obtain ⟨hlow, hhigh⟩ := shiftLeft_bounds hn hn'
  have hnat : n.toUInt64.toNat = n := UInt64.toNat_ofNat_of_lt' (hn'.trans (by decide))
  have hfloat : n.toUInt64.toFloat.toModel.unpack
      = .finite .positive (n <<< (52 - n.log2)) (n.log2 - 52) (Nat.shiftLeft_pos_iff.2 hn) := by
    show (Float.Model.pack (UnpackedFloat.normalize Format.binary64 (n.toUInt64.toNat : Int) 0
      .positive)).unpack = _
    rw [hnat, normalize_of_pos (by omega), Int.toNat_natCast, round_natural .positive hn hn']
    exact unpack_pack_normal hlow hhigh (by omega) (by omega)
  rw [ofNat_eq_mul hn']
  show (Float.Model.pack (UnpackedFloat.mul Format.binary64 n.toUInt64.toFloat.toModel.unpack
    (1 : Float).toModel.unpack)).unpack = _
  rw [hfloat, mul_one_exact hlow hhigh (by omega)]
  exact unpack_pack_normal hlow hhigh (by omega) (by omega)

/-! ## 3. Division by a power of two -/

/-- Dividing by a power of two moves the exponent, and leaves the mantissa. -/
theorem div_two_pow {k : Nat} {hpos : 0 < 2 ^ 52} (hm : 2 ^ 52 ≤ m) (hm' : m < 2 ^ 53)
    (he : -1074 + k < e) :
    UnpackedFloat.div Format.binary64 (.finite .positive m e h)
      (.finite .positive (2 ^ 52) (k - 52) hpos) = .finite .positive m (e - k) h := by
  have hlog : m.log2 = 52 := by simpa using log2_mul_two_pow hm hm' 0
  have hlog' : Nat.log2 (2 ^ 52) = 52 := Nat.log2_two_pow
  have htarget : Format.binary64.targetExponent
      (totalExponent m e - totalExponent (2 ^ 52) (k - 52)) = e - k - 1 := by
    rw [targetExponent_eq, totalExponent, totalExponent, hlog, hlog']
    omega
  have hleast : min (e - (k - 52)) (e - k - 1) = e - (k : Int) - 1 := by omega
  have hshift : (e - (k - 52) - (e - (k : Int) - 1)).toNat = 53 := by omega
  -- The quotient is even, and nothing remains of the dividend.
  have hquotient : m <<< 53 / 2 ^ 52 = m * 2 ^ 1 := by
    rw [Nat.shiftLeft_eq]
    omega
  have hremainder : m <<< 53 % 2 ^ 52 = 0 := by
    rw [Nat.shiftLeft_eq]
    omega
  have hcore : divCore Format.binary64 m e (2 ^ 52) (k - 52)
      = (m * 2 ^ 1, e - k - (1 : Nat), .exact) := by
    unfold divCore
    simp only [htarget, hleast, hshift, hquotient, hremainder, accuracyOfFraction, if_pos,
      Nat.cast_one]
  unfold UnpackedFloat.div
  simp only [hcore]
  exact roundWithAccuracy_exact .positive hm hm' (by omega) 1

/-! ## 4. Fractions -/

theorem magnitude_natural (n : Nat) (k : Nat) (hn : n.log2 ≤ 52) :
    magnitude (n <<< (52 - n.log2)) (n.log2 - 52 - k) = n / 2 ^ k := by
  have hshift : ((-(k : Int)) - (n.log2 - 52 - k)).toNat = 52 - n.log2 := by omega
  have hmagnitude := magnitude_shiftLeft (m := n) (e := -k) (f := n.log2 - 52 - k) (by omega)
  rw [hshift] at hmagnitude
  rw [hmagnitude, magnitude, zpow_neg, zpow_natCast, div_eq_mul_inv]

/-- The divisor of a fraction is a power of two. -/
theorem unpack_two_pow_32 :
    (Float.ofNat 4294967296).toModel.unpack
      = .finite .positive (2 ^ 52) ((32 : Nat) - 52) (by decide) := rfl

/-- **A drawn fraction is exact**: in binary64 it is the word over `2³²`. -/
theorem val_fraction (w : UInt32) :
    val (Draw.fraction w) = ((w.toNat / 2 ^ 32 : ℝ) : EReal) := by
  show value (Float.Model.pack (UnpackedFloat.div Format.binary64
    (Float.ofNat w.toNat).toModel.unpack (Float.ofNat 4294967296).toModel.unpack)).unpack = _
  rcases Nat.eq_zero_or_pos w.toNat with hzero | hpos
  · rw [hzero, Nat.cast_zero, zero_div]
    rfl
  · have hword : w.toNat < 2 ^ 53 := w.toNat_lt.trans (by decide)
    have hbits : w.toNat.log2 < 53 := (Nat.log2_lt hpos.ne').2 hword
    obtain ⟨hlow, hhigh⟩ := shiftLeft_bounds hpos hword
    rw [unpack_ofNat hpos hword, unpack_two_pow_32, div_two_pow hlow hhigh (by omega),
      unpack_pack_normal hlow hhigh (by omega) (by omega), value, signed,
      magnitude_natural w.toNat 32 (by omega)]

theorem fraction_lt_one (w : UInt32) : (Draw.fraction w : Float) < 1 := by
  have hnumber := (numbers_binary64.of_le (fraction_le_one w)).1
  rw [lt_iff_val hnumber numbers_binary64.one, val_one, val_fraction]
  have hword : (w.toNat : ℝ) < 2 ^ 32 := by exact_mod_cast w.toNat_lt
  exact EReal.coe_lt_coe_iff.2 ((div_lt_one (by positivity)).2 hword)

end Binary64

end LargeNeighbourhood
