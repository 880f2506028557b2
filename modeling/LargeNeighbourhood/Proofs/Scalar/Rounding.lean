/-
# Rounding in binary64

An operation of binary64 computes a mantissa that stands for its exact result, drops the bits that
are too many, and rounds by what the dropped bits say.  What is needed of this here is one bound:
**a result that is no greater than some binary64 value is not rounded above it**
(`roundWithAccuracy_within`).  The bits that are left never stand for more than the exact result,
and for less unless nothing was dropped (`Floors`); and every value that has the exponent to which
the bits were dropped, or a greater one, is a whole number of units there.  So what is below it is
at least one unit below it, and rounding goes up by at most one.

Packing keeps the bound (`Within.unpack_pack`).
-/
import Mathlib
import LargeNeighbourhood.Proofs.Scalar.Values

namespace LargeNeighbourhood

namespace Binary64

open Float.Model UnpackedFloat

variable {s t : Sign} {m n M : Nat} {e f E : Int} {h : 0 < m} {x : ℝ} {em : ExtendedMantissa}

/-! ## 1. Magnitudes -/

theorem magnitude_le_iff_left : magnitude m e ≤ magnitude n e ↔ m ≤ n := by
  rw [← not_lt, magnitude_lt_iff_left, not_lt]

theorem magnitude_le_right (m : Nat) (h : e ≤ f) : magnitude m e ≤ magnitude m f :=
  mul_le_mul_of_nonneg_left (zpow_le_zpow_right₀ one_le_two h) m.cast_nonneg

/-- Bits can move from the exponent to the mantissa. -/
theorem magnitude_add (m k : Nat) (e : Int) : magnitude m (e + k) = magnitude (m * 2 ^ k) e := by
  unfold magnitude
  rw [zpow_add₀ two_ne_zero, zpow_natCast, Nat.cast_mul, Nat.cast_pow, Nat.cast_ofNat]
  ring

/-- A shift to the left moves them down to a lower exponent. -/
theorem magnitude_shiftLeft (h : f ≤ e) : magnitude (m <<< (e - f).toNat) f = magnitude m e := by
  rw [Nat.shiftLeft_eq, ← magnitude_add]
  congr 1
  omega

/-- A value with a greater exponent is a whole number of units. -/
theorem exists_magnitude_eq (h : e ≤ E) (M : Nat) : ∃ N, magnitude M E = magnitude N e :=
  ⟨_, (magnitude_shiftLeft h).symm⟩

/-- The first bit of a smaller value is no further up. -/
theorem log2_add_le (hm : 0 < m) (h : magnitude m e ≤ magnitude n f) :
    (m.log2 : Int) + e ≤ n.log2 + f := by
  have hlow : (2 : ℝ) ^ m.log2 ≤ m := by exact_mod_cast Nat.log2_self_le hm.ne'
  have hhigh : (n : ℝ) < 2 ^ (n.log2 + 1) := by exact_mod_cast Nat.lt_log2_self
  have hlt : (2 : ℝ) ^ ((m.log2 : Int) + e) < 2 ^ ((n.log2 : Int) + 1 + f) :=
    calc (2 : ℝ) ^ ((m.log2 : Int) + e) = 2 ^ m.log2 * 2 ^ e := by
          rw [zpow_add₀ two_ne_zero, zpow_natCast]
      _ ≤ magnitude m e := mul_le_mul_of_nonneg_right hlow (zpow_nonneg zero_le_two e)
      _ ≤ magnitude n f := h
      _ < 2 ^ (n.log2 + 1) * 2 ^ f := mul_lt_mul_of_pos_right hhigh (zpow_pos two_pos f)
      _ = 2 ^ ((n.log2 : Int) + 1 + f) := by
          rw [zpow_add₀ two_ne_zero, ← zpow_natCast, Nat.cast_succ]
  have hexponent := (zpow_lt_zpow_iff_right₀ one_lt_two).1 hlt
  omega

/-! ## 2. Dropping bits -/

/-- The bits that are left of a number: they stand for no more, and for less if others were
dropped. -/
structure Floors (em : ExtendedMantissa) (e : Int) (x : ℝ) : Prop where
  le : magnitude em.mantissa e ≤ x
  lt : em.roundBit = true ∨ em.stickyBit = true → magnitude em.mantissa e < x

/-- Nothing was dropped of a number that is a whole number of units. -/
theorem floors_exact (m : Nat) (e : Int) :
    Floors (.ofMantissaAndAccuracy m .exact) e (magnitude m e) where
  le := le_refl _
  lt := by simp [ExtendedMantissa.ofMantissaAndAccuracy]

theorem mantissa_ofMantissaAndAccuracy (m : Nat) (accuracy : Accuracy) :
    (ExtendedMantissa.ofMantissaAndAccuracy m accuracy).mantissa = m := by
  cases accuracy with
  | exact => rfl
  | inexact o => cases o <;> rfl

/-- One more bit is dropped. -/
theorem Floors.shiftRightOne (h : Floors em e x) : Floors em.shiftRightOne (e + 1) x := by
  have hhalf : magnitude (em.mantissa / 2) (e + 1) = magnitude (em.mantissa / 2 * 2) e := by
    have hone := magnitude_add (em.mantissa / 2) 1 e
    rwa [Nat.cast_one, pow_one] at hone
  refine ⟨?_, fun hbits => ?_⟩
  · show magnitude (em.mantissa / 2) (e + 1) ≤ x
    rw [hhalf]
    exact (magnitude_le_iff_left.2 (Nat.div_mul_le_self _ _)).trans h.le
  · show magnitude (em.mantissa / 2) (e + 1) < x
    rw [hhalf]
    simp only [ExtendedMantissa.shiftRightOne, bne_iff_ne, ne_eq, Bool.or_eq_true] at hbits
    rcases hbits with hodd | hold
    · exact (magnitude_lt_iff_left.2 (by omega)).trans_le h.le
    · exact (magnitude_le_iff_left.2 (Nat.div_mul_le_self _ _)).trans_lt (h.lt hold)

/-- Some more bits are dropped. -/
theorem Floors.shiftRight (h : Floors em e x) (k : Nat) : Floors (em >>> k) (e + k) x := by
  induction k with
  | zero =>
    rw [Nat.cast_zero, add_zero]
    exact h
  | succ k ih =>
    have hnext := ih.shiftRightOne
    rw [add_assoc] at hnext
    exact hnext

theorem mantissa_shiftRight (em : ExtendedMantissa) (k : Nat) :
    (em >>> k).mantissa = em.mantissa / 2 ^ k := by
  induction k with
  | zero => exact (Nat.div_one _).symm
  | succ k ih =>
    show (em >>> k).mantissa / 2 = _
    rw [ih, Nat.div_div_eq_div_mul, pow_succ]

/-- **Rounding does not go above a whole number of units.** -/
theorem Floors.roundedMantissa_le (h : Floors em e x) (hx : x ≤ magnitude n e) :
    em.roundedMantissa ≤ n := by
  obtain ⟨m, roundBit, stickyBit⟩ := em
  have hle : m ≤ n := magnitude_le_iff_left.1 (h.le.trans hx)
  have hlt : roundBit = true ∨ stickyBit = true → m < n := fun hbits =>
    magnitude_lt_iff_left.1 ((h.lt hbits).trans_le hx)
  cases roundBit with
  | false =>
    cases stickyBit with
    | false => exact hle
    | true => exact hle
  | true =>
    have hstrict := hlt (Or.inl rfl)
    cases stickyBit with
    | false =>
      show m + m % 2 ≤ n
      omega
    | true => exact hstrict

theorem targetExponent_eq (total : Int) :
    Format.binary64.targetExponent total = max (total - 53) (-1074) := rfl

/-! ## 3. Rounding -/

/-- The exponent to which the bits are dropped. -/
def droppedTo (m : Nat) (e : Int) : Int :=
  max e (Format.binary64.targetExponent (totalExponent m e))

/-- Dropping bits to the target exponent: what is left stands for no more than before, and has at
most 53 bits. -/
theorem exists_shiftToTargetExponent {accuracy : Accuracy}
    (hx : Floors (.ofMantissaAndAccuracy m accuracy) e x) :
    ∃ em, shiftToTargetExponent Format.binary64 m e accuracy = (em, droppedTo m e) ∧
      Floors em (droppedTo m e) x ∧ em.mantissa < 2 ^ 53 := by
  obtain ⟨k, hk⟩ : ∃ k : Nat,
      k = (Format.binary64.targetExponent (totalExponent m e) - e).toNat := ⟨_, rfl⟩
  have htarget := targetExponent_eq (totalExponent m e)
  have hexponent : e + (k : Int) = droppedTo m e := by
    unfold droppedTo
    omega
  refine ⟨ExtendedMantissa.ofMantissaAndAccuracy m accuracy >>> k, ?_, ?_, ?_⟩
  · rw [← hexponent, hk]
    rfl
  · rw [← hexponent]
    exact hx.shiftRight k
  · rw [mantissa_shiftRight, mantissa_ofMantissaAndAccuracy,
      Nat.div_lt_iff_lt_mul (Nat.two_pow_pos k), ← pow_add]
    unfold totalExponent at hk htarget
    exact Nat.lt_log2_self.trans_le (Nat.pow_le_pow_right Nat.two_pos (by omega))

/-- A zero, or a finite value that is no greater than the one with this mantissa and exponent. -/
inductive Within (s : Sign) (M : Nat) (E : Int) : UnpackedFloat → Prop
  | zero {t : Sign} : Within s M E (.zero t)
  | finite {m : Nat} {e : Int} {h : 0 < m} (bits : m < 2 ^ 53) (least : -1074 ≤ e)
      (exponent : e ≤ E) (le : magnitude m e ≤ magnitude M E) : Within s M E (.finite s m e h)

/-- A bound of a number bounds its target exponent ... -/
theorem target_le (hpos : 0 < m) (hm : magnitude m e ≤ magnitude M E) (hM : M < 2 ^ 53)
    (hE : -1074 ≤ E) : Format.binary64.targetExponent (totalExponent m e) ≤ E := by
  have hlog := log2_add_le hpos hm
  have hbits : M.log2 ≤ 52 := by
    by_cases hzero : M = 0
    · rw [hzero]
      decide
    · exact Nat.lt_succ_iff.1 ((Nat.log2_lt hzero).2 hM)
  rw [targetExponent_eq, totalExponent]
  omega

/-- ... and with it the exponent to which its bits are dropped. -/
theorem droppedTo_le (hm : magnitude m e ≤ magnitude M E) (hM : M < 2 ^ 53) (hE : -1074 ≤ E)
    (heE : e ≤ E) : droppedTo m e ≤ E := by
  rcases Nat.eq_zero_or_pos m with rfl | hpos
  · rw [droppedTo, targetExponent_eq, totalExponent, Nat.log2_zero]
    omega
  · exact max_le heE (target_le hpos hm hM hE)

/-- **A number that is no greater than some value is not rounded above it.** -/
theorem roundWithAccuracy_within {accuracy : Accuracy} (s : Sign)
    (hx : Floors (.ofMantissaAndAccuracy m accuracy) e x) (hle : x ≤ magnitude M E)
    (hM : M < 2 ^ 53) (hE : -1074 ≤ E) (heE : e ≤ E) :
    Within s M E (roundWithAccuracy Format.binary64 s m e accuracy) := by
  obtain ⟨em, hshift, hfloors, hbits⟩ := exists_shiftToTargetExponent hx
  have hexact : magnitude m e ≤ magnitude M E := by
    have hfloor := hx.le
    rw [mantissa_ofMantissaAndAccuracy] at hfloor
    exact hfloor.trans hle
  have hfirst := droppedTo_le hexact hM hE heE
  obtain ⟨N, hN⟩ := exists_magnitude_eq hfirst M
  have hrounded : magnitude em.roundedMantissa (droppedTo m e) ≤ magnitude M E := by
    rw [hN, magnitude_le_iff_left]
    exact hfloors.roundedMantissa_le (hle.trans hN.le)
  -- Rounding may have filled one bit too many; dropping it again is exact.
  obtain ⟨em', hshift', hfloors', hbits'⟩ :=
    exists_shiftToTargetExponent (floors_exact em.roundedMantissa (droppedTo m e))
  have hsecond := droppedTo_le hrounded hM hE hfirst
  have hround : roundWithAccuracy Format.binary64 s m e accuracy
      = if h : em'.mantissa = 0 then .zero s
        else .finite s em'.mantissa (droppedTo em.roundedMantissa (droppedTo m e))
          (Nat.pos_of_ne_zero h) := by
    unfold roundWithAccuracy
    simp only [hshift, hshift']
  rw [hround]
  split
  · exact .zero
  · refine .finite hbits' ?_ hsecond (hfloors'.le.trans hrounded)
    exact le_max_of_le_right (le_max_right _ _)

/-- The same for a number that may have fewer bits than its target. -/
theorem round_within (s : Sign) (hm : 0 < m) (hle : magnitude m e ≤ magnitude M E)
    (hM : M < 2 ^ 53) (hE : -1074 ≤ E) : Within s M E (round Format.binary64 s m e) := by
  obtain ⟨k, hk⟩ : ∃ k : Nat,
      k = (e - Format.binary64.targetExponent (totalExponent m e)).toNat := ⟨_, rfl⟩
  have hround : round Format.binary64 s m e
      = roundWithAccuracy Format.binary64 s (m * 2 ^ k) (e - k) .exact := by
    rw [← Nat.shiftLeft_eq, hk]
    rfl
  have hsame : magnitude (m * 2 ^ k) (e - k) = magnitude m e := by
    rw [← magnitude_add, sub_add_cancel]
  have hexponent : e - (k : Int) ≤ E := by
    have htarget := target_le hm hle hM hE
    omega
  rw [hround]
  exact roundWithAccuracy_within s (floors_exact _ _) (hsame.trans_le hle) hM hE hexponent

variable {u : UnpackedFloat}

/-- Packing keeps a bound. -/
theorem Within.unpack_pack (hu : Within s M E u) (hE : E ≤ 971) :
    Within s M E (Float.Model.pack u).unpack := by
  cases hu with
  | zero =>
    rw [unpack_pack_zero]
    exact .zero
  | @finite m e h bits least exponent le =>
    by_cases hm : 2 ^ 52 ≤ m
    · rw [unpack_pack_normal hm bits least (by omega)]
      exact .finite bits least exponent le
    · rw [unpack_pack_subnormal (by omega) (by omega)]
      exact .finite bits (le_refl _) (by omega) ((magnitude_le_right m least).trans le)

theorem Within.isNaN_eq_false (hu : Within s M E u) : u.isNaN = false := by
  cases hu with
  | zero => rfl
  | finite => rfl

theorem Within.value_le (hu : Within .positive M E u) : value u ≤ (magnitude M E : ℝ) := by
  cases hu with
  | zero => exact EReal.coe_nonneg.2 (magnitude_nonneg M E)
  | finite bits least exponent le => exact EReal.coe_le_coe_iff.2 le

end Binary64

end LargeNeighbourhood
