/-
# The numbers that binary64 stands for

An operation of binary64 unpacks its arguments into a sign, a mantissa and an exponent, computes
with these, and packs the result again.  `Binary64.value` is the extended real number that an
unpacked value stands for, and `Binary64.val` the one of a packed value.

Several mantissas and exponents stand for one number.  Unpacking chooses one of them: the mantissa
has all its bits unless the exponent is the least one (`Canonical`).  Of two such values the one
with the greater exponent is the greater one, and so the order of binary64 is the order of the
numbers (`le_iff_val`, `lt_iff_val`).

Packing keeps a canonical value (`unpack_pack_normal`, `unpack_pack_subnormal`).
-/
import Mathlib
import LargeNeighbourhood.Proofs.Scalar.Numbers

namespace LargeNeighbourhood

namespace Binary64

open Float.Model UnpackedFloat

/-! ## 1. Fields -/

/-- What unpacking makes: the mantissa has 53 bits, fewer only at the least exponent. -/
def Canonical : UnpackedFloat → Prop
  | .finite _ m e _ => m < 2 ^ 53 ∧ -1074 ≤ e ∧ e ≤ 971 ∧ (2 ^ 52 ≤ m ∨ e = -1074)
  | _ => True

/-- What the three fields of a packed value stand for. -/
def ofFields (s : Sign) (exponent : BitVec 11) (mantissa : BitVec 52) : UnpackedFloat :=
  if exponent = -1#11 then (if mantissa = 0#52 then .infinity s else .notANumber)
  else if exponent = 0#11 then
    if h : mantissa.toNat = 0 then .zero s
    else .finite s mantissa.toNat (-1074) (Nat.pos_of_ne_zero h)
  else .finite s (2 ^ 52 + mantissa.toNat) (exponent.toNat - 1075) (by positivity)

/-- The mantissa of a normal value has one bit more than its field. -/
theorem toNat_implicit (mantissa : BitVec 52) :
    (1#1 ++ mantissa).toNat = 2 ^ 52 + mantissa.toNat := by
  rw [BitVec.toNat_append, ← Nat.shiftLeft_add_eq_or_of_lt mantissa.isLt]
  rfl

theorem unpack_eq_ofFields (b : BitVec 64) :
    UnpackedFloat.unpack Format.binary64 b
      = ofFields (Sign.ofBitVec (@unpackSign Format.binary64 b))
        (@unpackExponent Format.binary64 b) (@unpackMantissa Format.binary64 b) := by
  unfold UnpackedFloat.unpack ofFields
  simp only
  split
  · rfl
  · split
    · rename_i hzero
      rw [hzero]
      split
      · rename_i hm
        have hnat : (@unpackMantissa Format.binary64 b).toNat = 0 := congrArg BitVec.toNat hm
        rw [dif_pos hnat]
      · rename_i hm
        have hnat : ¬(@unpackMantissa Format.binary64 b).toNat = 0 := fun h =>
          hm (BitVec.eq_of_toNat_eq h)
        rw [dif_neg hnat]
        rfl
    · simp only [toNat_implicit]
      rfl

theorem canonical_ofFields (s : Sign) (exponent : BitVec 11) (mantissa : BitVec 52) :
    Canonical (ofFields s exponent mantissa) := by
  have hmantissa := mantissa.isLt
  unfold ofFields
  split
  · split
    · exact True.intro
    · exact True.intro
  · rename_i hlarge
    split
    · split
      · exact True.intro
      · exact ⟨by omega, by omega, by omega, Or.inr rfl⟩
    · rename_i hzero
      have hexponent := exponent.isLt
      have hpos : exponent.toNat ≠ 0 := fun h => hzero (BitVec.eq_of_toNat_eq h)
      have hmax : exponent.toNat ≠ 2047 := fun h => hlarge (BitVec.eq_of_toNat_eq h)
      exact ⟨by omega, by omega, by omega, Or.inl (by omega)⟩

/-- **Unpacking makes canonical values.** -/
theorem canonical_unpack (f : Float.Model) : Canonical f.unpack := by
  rw [Float.Model.unpack, unpack_eq_ofFields]
  exact canonical_ofFields _ _ _

/-! ## 2. Packing -/

theorem unpack_packComponents (s : Sign) (exponent : BitVec 11) (mantissa : BitVec 52) :
    UnpackedFloat.unpack Format.binary64 (packComponents Format.binary64 s exponent mantissa)
      = ofFields s exponent mantissa := by
  rw [unpack_eq_ofFields, unpackMantissa_packComponents, unpackExponent_packComponents,
    unpackSign_packComponents, Sign.ofBitVec_toBitVec]

theorem unpack_pack_infinity (s : Sign) : (Float.Model.pack (.infinity s)).unpack = .infinity s :=
  unpack_packComponents s _ _

theorem unpack_pack_zero (s : Sign) : (Float.Model.pack (.zero s)).unpack = .zero s :=
  unpack_packComponents s _ _

theorem unpack_pack_notANumber : (Float.Model.pack .notANumber).unpack = .notANumber :=
  unpack_packComponents _ _ _

variable {s : Sign} {m : Nat} {e : Int} {h : 0 < m}

/-- What is packed from three fields unpacks as they say. -/
theorem unpack_pack_of_eq {u : UnpackedFloat} {exponent : BitVec 11} {mantissa : BitVec 52}
    (h : UnpackedFloat.pack Format.binary64 u
      = packComponents Format.binary64 s exponent mantissa) :
    (Float.Model.pack u).unpack = ofFields s exponent mantissa := by
  show UnpackedFloat.unpack Format.binary64 (UnpackedFloat.pack Format.binary64 u) = _
  rw [h, unpack_packComponents]

/-- A value with a mantissa of 53 bits is packed as it is ... -/
theorem unpack_pack_normal (hm : 2 ^ 52 ≤ m) (hm' : m < 2 ^ 53) (he : -1074 ≤ e) (he' : e ≤ 971) :
    (Float.Model.pack (.finite s m e h)).unpack = .finite s m e h := by
  have hsmall : ¬2 ^ 11 ≤ (e + 1023 + 52).toNat + 1 := by omega
  have hlog : m.log2 + 1 = 53 := by
    rw [(Nat.log2_eq_iff h.ne').2 ⟨hm, hm'⟩]
  have hpack : UnpackedFloat.pack Format.binary64 (.finite s m e h)
      = packComponents Format.binary64 s (BitVec.ofNat 11 (e + 1023 + 52).toNat)
        (BitVec.ofNat 52 m) := (if_neg hsmall).trans (if_pos hlog)
  have hexponent : (BitVec.ofNat 11 (e + 1023 + 52).toNat).toNat = (e + 1023 + 52).toNat := by
    rw [BitVec.toNat_ofNat, Nat.mod_eq_of_lt (by omega)]
  have hmantissa : (BitVec.ofNat 52 m).toNat = m - 2 ^ 52 := by
    rw [BitVec.toNat_ofNat]
    omega
  have hlarge : BitVec.ofNat 11 (e + 1023 + 52).toNat ≠ -1#11 := by
    intro heq
    have hmax : (e + 1023 + 52).toNat = 2047 := hexponent.symm.trans (congrArg BitVec.toNat heq)
    omega
  have hzero : BitVec.ofNat 11 (e + 1023 + 52).toNat ≠ 0#11 := by
    intro heq
    have hmin : (e + 1023 + 52).toNat = 0 := hexponent.symm.trans (congrArg BitVec.toNat heq)
    omega
  rw [unpack_pack_of_eq hpack, ofFields, if_neg hlarge, if_neg hzero]
  congr 1
  · omega
  · omega

/-- ... and one with fewer bits at the least exponent. -/
theorem unpack_pack_subnormal (hm : m < 2 ^ 52) (he : e ≤ 971) :
    (Float.Model.pack (.finite s m e h)).unpack = .finite s m (-1074) h := by
  have hsmall : ¬2 ^ 11 ≤ (e + 1023 + 52).toNat + 1 := by omega
  have hlog : ¬m.log2 + 1 = 53 := by
    have hlt := (Nat.log2_lt h.ne').2 hm
    omega
  have hpack : UnpackedFloat.pack Format.binary64 (.finite s m e h)
      = packComponents Format.binary64 s 0#11 (BitVec.ofNat 52 m) :=
    (if_neg hsmall).trans (if_neg hlog)
  have hmantissa : (BitVec.ofNat 52 m).toNat = m := by
    rw [BitVec.toNat_ofNat, Nat.mod_eq_of_lt hm]
  have hpos : ¬(BitVec.ofNat 52 m).toNat = 0 := by
    rw [hmantissa]
    exact h.ne'
  rw [unpack_pack_of_eq hpack, ofFields, if_neg (by decide), if_pos rfl, dif_neg hpos]
  congr 1

/-! ## 3. Numbers -/

/-- The number of a mantissa and an exponent. -/
noncomputable def magnitude (m : Nat) (e : Int) : ℝ := m * 2 ^ e

/-- The number with this sign. -/
noncomputable def signed : Sign → ℝ → ℝ
  | .positive, x => x
  | .negative, x => -x

/-- The number that an unpacked value stands for.  NaN stands for none, and has zero here. -/
noncomputable def value : UnpackedFloat → EReal
  | .notANumber => (0 : ℝ)
  | .infinity .positive => ⊤
  | .infinity .negative => ⊥
  | .zero _ => (0 : ℝ)
  | .finite s m e _ => (signed s (magnitude m e) : ℝ)

/-- The number that a value stands for. -/
noncomputable def val (x : Float) : EReal := value x.toModel.unpack

variable {n : Nat} {f : Int} {h' : 0 < n} {t : Sign}

theorem magnitude_pos (h : 0 < m) (e : Int) : 0 < magnitude m e :=
  mul_pos (Nat.cast_pos.2 h) (zpow_pos two_pos e)

theorem magnitude_nonneg (m : Nat) (e : Int) : 0 ≤ magnitude m e :=
  mul_nonneg m.cast_nonneg (zpow_nonneg zero_le_two e)

theorem magnitude_one : magnitude 1 0 = 1 := by simp [magnitude]

theorem magnitude_mul (m n : Nat) (e f : Int) :
    magnitude (m * n) (e + f) = magnitude m e * magnitude n f := by
  unfold magnitude
  rw [zpow_add₀ two_ne_zero, Nat.cast_mul]
  ring

theorem magnitude_lt_iff_left : magnitude m e < magnitude n e ↔ m < n := by
  unfold magnitude
  rw [mul_lt_mul_iff_left₀ (zpow_pos two_pos e), Nat.cast_lt]

/-- Of two canonical values the one with the greater exponent is the greater one. -/
theorem magnitude_lt_of_lt (hm : m < 2 ^ 53) (hn : 2 ^ 52 ≤ n) (hef : e < f) :
    magnitude m e < magnitude n f := by
  have hm' : (m : ℝ) < 2 ^ 53 := by exact_mod_cast hm
  have hn' : (2 : ℝ) ^ 52 ≤ n := by exact_mod_cast hn
  calc magnitude m e < 2 ^ 53 * 2 ^ e := mul_lt_mul_of_pos_right hm' (zpow_pos two_pos e)
    _ = 2 ^ 52 * 2 ^ (e + 1) := by rw [zpow_add_one₀ two_ne_zero]; ring
    _ ≤ 2 ^ 52 * 2 ^ f := by gcongr; exacts [one_le_two, by omega]
    _ ≤ magnitude n f := mul_le_mul_of_nonneg_right hn' (zpow_nonneg zero_le_two f)

/-- Comparing exponents and then mantissas compares the numbers. -/
theorem compare_then_eq_lt_iff (ha : Canonical (.finite s m e h))
    (hb : Canonical (.finite t n f h')) :
    (compare e f).then (compare m n) = .lt ↔ magnitude m e < magnitude n f := by
  obtain ⟨hm, he, -, hnormal⟩ := ha
  obtain ⟨hn, hf, -, hnormal'⟩ := hb
  rw [Ordering.then_eq_lt, compare_lt_iff_lt, compare_lt_iff_lt, compare_eq_iff_eq]
  rcases lt_trichotomy e f with hef | rfl | hfe
  · exact iff_of_true (Or.inl hef) (magnitude_lt_of_lt hm (by omega) hef)
  · simp [magnitude_lt_iff_left]
  · exact iff_of_false (by omega) (magnitude_lt_of_lt hn (by omega) hfe).not_gt

/-! ## 4. Order -/

/-- Of canonical values, a comparison compares the numbers. -/
theorem compare_eq_lt_iff {a b : UnpackedFloat} (ha : Canonical a) (hb : Canonical b)
    (hna : a.isNaN = false) (hnb : b.isNaN = false) :
    a.compare b = some .lt ↔ value a < value b := by
  cases a with
  | notANumber => exact absurd hna (by decide)
  | infinity s =>
    cases s with
    | positive =>
      refine iff_of_false ?_ not_top_lt
      cases b with
      | notANumber => exact absurd hnb (by decide)
      | infinity t => cases t <;> decide
      | zero t => exact nofun
      | finite t n f h => exact nofun
    | negative =>
      cases b with
      | notANumber => exact absurd hnb (by decide)
      | infinity t =>
        cases t with
        | positive => exact iff_of_true rfl bot_lt_top
        | negative => exact iff_of_false (by decide) (lt_irrefl _)
      | zero t => exact iff_of_true rfl (EReal.bot_lt_coe _)
      | finite t n f h => exact iff_of_true rfl (EReal.bot_lt_coe _)
  | zero s =>
    cases b with
    | notANumber => exact absurd hnb (by decide)
    | infinity t =>
      cases t with
      | positive => exact iff_of_true rfl (EReal.coe_lt_top _)
      | negative => exact iff_of_false nofun not_lt_bot
    | zero t => exact iff_of_false nofun (lt_irrefl _)
    | finite t n f h =>
      have hpos := magnitude_pos h f
      cases t with
      | positive => exact iff_of_true rfl (EReal.coe_lt_coe_iff.2 hpos)
      | negative =>
        exact iff_of_false nofun (EReal.coe_lt_coe_iff.not.2 (neg_lt_zero.2 hpos).not_gt)
  | finite s m e h =>
    have hpos := magnitude_pos h e
    cases b with
    | notANumber => exact absurd hnb (by decide)
    | infinity t =>
      cases t with
      | positive => cases s <;> exact iff_of_true rfl (EReal.coe_lt_top _)
      | negative => cases s <;> exact iff_of_false nofun not_lt_bot
    | zero t =>
      cases s with
      | positive => exact iff_of_false nofun (EReal.coe_lt_coe_iff.not.2 hpos.not_gt)
      | negative => exact iff_of_true rfl (EReal.coe_lt_coe_iff.2 (neg_lt_zero.2 hpos))
    | finite t n f h' =>
      have hpos' := magnitude_pos h' f
      refine Iff.trans ?_ EReal.coe_lt_coe_iff.symm
      cases s with
      | positive =>
        cases t with
        | positive => exact Option.some_inj.trans (compare_then_eq_lt_iff ha hb)
        | negative =>
          exact iff_of_false nofun ((neg_lt_zero.2 hpos').trans hpos).not_gt
      | negative =>
        cases t with
        | positive => exact iff_of_true rfl ((neg_lt_zero.2 hpos).trans hpos')
        | negative =>
          -- Below zero the order is turned round.
          refine Option.some_inj.trans ?_
          rw [swap_compare_then, compare_then_eq_lt_iff hb ha]
          exact neg_lt_neg_iff.symm

variable {x y z : Float}

theorem lt_iff_val (hx : x.isNaN = false) (hy : y.isNaN = false) : x < y ↔ val x < val y :=
  lt_iff.trans (compare_eq_lt_iff (canonical_unpack _) (canonical_unpack _) hx hy)

theorem le_iff_val (hx : x.isNaN = false) (hy : y.isNaN = false) : x ≤ y ↔ val x ≤ val y := by
  rw [← not_lt, ← lt_iff_val hy hx]
  constructor
  · intro hle hlt
    obtain ⟨o, ho, hle⟩ := le_iff.1 hle
    rw [lt_iff, compare_swap, ho] at hlt
    cases o with
    | gt => exact absurd hle (by decide)
    | _ => exact absurd hlt (by decide)
  · exact numbers_binary64.le_of_not_lt hx hy

theorem le_trans (hxy : x ≤ y) (hyz : y ≤ z) : x ≤ z := by
  obtain ⟨hx, hy⟩ := numbers_binary64.of_le hxy
  obtain ⟨-, hz⟩ := numbers_binary64.of_le hyz
  rw [le_iff_val hx hy] at hxy
  rw [le_iff_val hy hz] at hyz
  exact (le_iff_val hx hz).2 (hxy.trans hyz)

theorem le_of_lt (h : x < y) : x ≤ y := by
  obtain ⟨hx, hy⟩ := numbers_binary64.of_lt h
  exact (le_iff_val hx hy).2 ((lt_iff_val hx hy).1 h).le

theorem lt_of_lt_of_le (hxy : x < y) (hyz : y ≤ z) : x < z := by
  obtain ⟨hx, hy⟩ := numbers_binary64.of_lt hxy
  obtain ⟨-, hz⟩ := numbers_binary64.of_le hyz
  rw [lt_iff_val hx hy] at hxy
  rw [le_iff_val hy hz] at hyz
  exact (lt_iff_val hx hz).2 (hxy.trans_le hyz)

end Binary64

end LargeNeighbourhood
