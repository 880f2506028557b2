/-
# Which scalars compare like numbers

A type of scalars promises no law of its two comparisons.  `Scalar.Numbers number` says that the
scalars with the property `number` compare like numbers: of two of them, one is below the other or
the other is no greater; and that no other scalar compares with anything.

In an ordered field every scalar is a number (`numbers_exact`).  In binary64 every value is one but
NaN, the infinities among them (`numbers_binary64`).  The order of binary64 is a comparison of
unpacked values: it has no answer exactly at a NaN, and its answer is turned round with its
arguments.
-/
import Mathlib
import LargeNeighbourhood.Proofs.Scalar.Exact
import LargeNeighbourhood.Scalar.Binary64

namespace LargeNeighbourhood

namespace Scalar

/-- The scalars that compare like numbers. -/
structure Numbers {K : Type} [Scalar K] (number : K → Prop) : Prop where
  zero : number 0
  one : number 1
  of_le : ∀ {a b : K}, a ≤ b → number a ∧ number b
  of_lt : ∀ {a b : K}, a < b → number a ∧ number b
  le_of_not_lt : ∀ {a b : K}, number a → number b → ¬b < a → a ≤ b
  lt_of_not_le : ∀ {a b : K}, number a → number b → ¬b ≤ a → a < b

/-- In exact arithmetic every scalar is a number. -/
theorem numbers_exact {K : Type} [Field K] [LinearOrder K] : Numbers fun _ : K => True where
  zero := True.intro
  one := True.intro
  of_le := fun _ => ⟨True.intro, True.intro⟩
  of_lt := fun _ => ⟨True.intro, True.intro⟩
  le_of_not_lt := fun _ _ h => not_lt.1 h
  lt_of_not_le := fun _ _ h => not_le.1 h

end Scalar

/-! ## Binary64 -/

namespace Binary64

open Float.Model

/-- Exponents first and mantissas after them, the other way round. -/
theorem swap_compare_then (e f : Int) (m n : Nat) :
    ((compare e f).then (compare m n)).swap = (compare f e).then (compare n m) := by
  rw [Ordering.swap_then, ← Std.OrientedCmp.eq_swap, ← Std.OrientedCmp.eq_swap]

/-- A comparison the other way round has the opposite answer. -/
theorem compare_swap (a b : UnpackedFloat) : b.compare a = (a.compare b).map Ordering.swap := by
  cases a with
  | notANumber => cases b <;> rfl
  | infinity s =>
    cases b with
    | infinity t => cases s <;> cases t <;> rfl
    | _ => cases s <;> rfl
  | zero s =>
    cases b with
    | infinity t => cases t <;> rfl
    | finite t n f k => cases t <;> rfl
    | _ => rfl
  | finite s m e h =>
    cases b with
    | notANumber => rfl
    | infinity t => cases s <;> cases t <;> rfl
    | zero t => cases s <;> rfl
    | finite t n f k =>
      cases s <;> cases t <;> simp [UnpackedFloat.compare, swap_compare_then]

/-- A comparison has an answer unless one of the two is NaN. -/
theorem compare_eq_none_iff (a b : UnpackedFloat) :
    a.compare b = none ↔ a.isNaN = true ∨ b.isNaN = true := by
  cases a with
  | notANumber => simp [UnpackedFloat.compare, UnpackedFloat.isNaN]
  | infinity s => cases b <;> cases s <;> simp [UnpackedFloat.compare, UnpackedFloat.isNaN]
  | zero s =>
    cases b with
    | infinity t => cases t <;> simp [UnpackedFloat.compare, UnpackedFloat.isNaN]
    | finite t n f k => cases t <;> simp [UnpackedFloat.compare, UnpackedFloat.isNaN]
    | _ => simp [UnpackedFloat.compare, UnpackedFloat.isNaN]
  | finite s m e h =>
    cases b with
    | infinity t => cases s <;> cases t <;> simp [UnpackedFloat.compare, UnpackedFloat.isNaN]
    | finite t n f k => cases s <;> cases t <;> simp [UnpackedFloat.compare, UnpackedFloat.isNaN]
    | _ => cases s <;> simp [UnpackedFloat.compare, UnpackedFloat.isNaN]

variable {a b : Float}

theorem lt_iff : a < b ↔ a.toModel.unpack.compare b.toModel.unpack = some .lt := by
  show (a.lt b) = true ↔ _
  simp [Float.lt, LT.lt, Float.Model.lt, UnpackedFloat.lt]

theorem le_iff : a ≤ b ↔ ∃ o, a.toModel.unpack.compare b.toModel.unpack = some o ∧ o.isLE := by
  show (a.le b) = true ↔ _
  simp [Float.le, LE.le, Float.Model.le, UnpackedFloat.le, Option.any_eq_true]

/-- Two values compare unless one of them is NaN. -/
theorem exists_compare (ha : a.isNaN = false) (hb : b.isNaN = false) :
    ∃ o, a.toModel.unpack.compare b.toModel.unpack = some o := by
  cases h : a.toModel.unpack.compare b.toModel.unpack with
  | some o => exact ⟨o, rfl⟩
  | none =>
    rcases (compare_eq_none_iff _ _).1 h with hn | hn
    · exact absurd hn (Bool.eq_false_iff.1 ha)
    · exact absurd hn (Bool.eq_false_iff.1 hb)

theorem not_isNaN_of_compare {o : Ordering}
    (h : a.toModel.unpack.compare b.toModel.unpack = some o) :
    a.isNaN = false ∧ b.isNaN = false := by
  have hne : ¬(a.isNaN = true ∨ b.isNaN = true) := by
    intro hn
    rw [(compare_eq_none_iff _ _).2 hn] at h
    cases h
  simpa using hne

/-- **In binary64 the numbers are all but NaN.** -/
theorem numbers_binary64 : Scalar.Numbers fun x : Float => x.isNaN = false where
  zero := by decide
  one := by decide
  of_le := fun h => by
    obtain ⟨o, ho, -⟩ := le_iff.1 h
    exact not_isNaN_of_compare ho
  of_lt := fun h => not_isNaN_of_compare (lt_iff.1 h)
  le_of_not_lt := fun {a b} ha hb h => by
    obtain ⟨o, ho⟩ := exists_compare ha hb
    refine le_iff.2 ⟨o, ho, ?_⟩
    cases o with
    | gt => exact absurd (lt_iff.2 (by rw [compare_swap, ho]; rfl)) h
    | _ => rfl
  lt_of_not_le := fun {a b} ha hb h => by
    obtain ⟨o, ho⟩ := exists_compare ha hb
    refine lt_iff.2 (ho.trans ?_)
    cases o with
    | lt => rfl
    | eq => exact absurd (le_iff.2 ⟨.eq, by rw [compare_swap, ho]; rfl, rfl⟩) h
    | gt => exact absurd (le_iff.2 ⟨.lt, by rw [compare_swap, ho]; rfl, rfl⟩) h

end Binary64

end LargeNeighbourhood
