/-
# Exact arithmetic

Every ordered field is a type of scalars.  Its operations and comparisons are the field's own, so
a definition of the library that is read at such a field computes with exact numbers, and what
`Scalar` says of single operations becomes what the field says of them: `upper` and `lower` are
the maximum and the minimum, and the sum from the left is the sum.
-/
import Mathlib
import LargeNeighbourhood.Scalar

namespace LargeNeighbourhood

namespace Scalar

variable {K : Type}

/-- The scalars of an ordered field. -/
instance (priority := low) exact [Field K] [LinearOrder K] : Scalar K where
  toZero := inferInstance
  toOne := inferInstance
  toNatCast := inferInstance
  toAdd := inferInstance
  toSub := inferInstance
  toMul := inferInstance
  toDiv := inferInstance
  toNeg := inferInstance
  toLT := inferInstance
  toLE := inferInstance
  decidableLT := inferInstance
  decidableLE := inferInstance

/-! ## 1. Choosing between two values -/

section Order

variable [LinearOrder K]

theorem upper_eq_max (a b : K) : upper a b = max a b := by
  unfold upper
  split
  · rename_i h
    exact (max_eq_right h.le).symm
  · rename_i h
    exact (max_eq_left (not_lt.1 h)).symm

theorem lower_eq_min (a b : K) : lower a b = min a b := by
  unfold lower
  split
  · rename_i h
    exact (min_eq_right h.le).symm
  · rename_i h
    exact (min_eq_left (not_lt.1 h)).symm

/-- A bound below every entry of a window is below the least one. -/
theorem le_least {a b : K} {rest : List K} (ha : b ≤ a) (hrest : ∀ x ∈ rest, b ≤ x) :
    b ≤ least a rest := by
  induction rest generalizing a with
  | nil => exact ha
  | cons x rest ih =>
    obtain ⟨hx, hrest⟩ := List.forall_mem_cons.1 hrest
    refine ih ?_ hrest
    rw [lower_eq_min]
    exact le_min ha hx

/-- The least entry of a window is one of its entries. -/
theorem least_mem (a : K) (rest : List K) : least a rest ∈ a :: rest := by
  induction rest generalizing a with
  | nil => exact List.mem_cons_self ..
  | cons y rest ih =>
    rcases List.mem_cons.1 (ih (lower a y)) with heq | hmem
    · rcases min_choice a y with hmin | hmin
      · exact List.mem_cons.2 (Or.inl (heq.trans ((lower_eq_min a y).trans hmin)))
      · refine List.mem_cons_of_mem _ (List.mem_cons.2 (Or.inl ?_))
        exact heq.trans ((lower_eq_min a y).trans hmin)
    · exact List.mem_cons_of_mem _ (List.mem_cons_of_mem _ hmem)

/-- The least entry of a window is below every entry. -/
theorem least_le {a x : K} {rest : List K} (hx : x ∈ a :: rest) : least a rest ≤ x := by
  induction rest generalizing a x with
  | nil => exact le_of_eq (List.mem_singleton.1 hx).symm
  | cons y rest ih =>
    have hle : least a (y :: rest) ≤ lower a y := ih (List.mem_cons_self ..)
    rw [lower_eq_min] at hle
    rcases List.mem_cons.1 hx with rfl | hx
    · exact hle.trans (min_le_left _ _)
    · rcases List.mem_cons.1 hx with rfl | hx
      · exact hle.trans (min_le_right _ _)
      · exact ih (List.mem_cons_of_mem _ hx)

end Order

/-! ## 2. Derived arithmetic -/

section Field

variable [Field K] [LinearOrder K]

theorem sum_eq_sum (xs : List K) : sum xs = xs.sum :=
  List.sum_eq_foldl.symm

/-- An integer as a scalar is the integer of the field. -/
theorem ofInt_eq_cast (n : Int) : (ofInt n : K) = (n : K) := by
  cases n with
  | ofNat n => exact (Int.cast_natCast n).symm
  | negSucc n => exact (Int.cast_negSucc n).symm

theorem same_iff {a b : K} : same a b = true ↔ a = b := by
  rw [same, Bool.and_eq_true, decide_eq_true_eq, decide_eq_true_eq]
  exact le_antisymm_iff.symm

theorem within_iff {low high x : K} : within low high x = true ↔ low ≤ x ∧ x ≤ high := by
  simp [within]

variable [IsStrictOrderedRing K]

theorem magnitude_eq_abs (x : K) : magnitude x = |x| := by
  unfold magnitude
  split
  · rename_i h
    exact (abs_of_neg h).symm
  · rename_i h
    exact (abs_of_nonneg (not_lt.1 h)).symm

theorem ratio_nonneg (a b : Nat) : (0 : K) ≤ ratio a b :=
  div_nonneg (Nat.cast_nonneg a) (Nat.cast_nonneg b)

/-- A proper fraction is below one. -/
theorem ratio_lt_one {a b : Nat} (h : a < b) : (ratio a b : K) < 1 :=
  (div_lt_one (Nat.cast_pos.2 (by omega))).2 (Nat.cast_lt.2 h)

/-- The mean of a window is no less than its least entry. -/
theorem least_le_mean (a : K) (rest : List K) :
    least a rest ≤ sum (a :: rest) / ((rest.length + 1 : Nat) : K) := by
  have hpos : (0 : K) < ((rest.length + 1 : Nat) : K) := Nat.cast_pos.2 (Nat.succ_pos _)
  have hsum : (a :: rest).length • least a rest ≤ (a :: rest).sum :=
    List.card_nsmul_le_sum _ _ fun x hx => least_le hx
  rw [nsmul_eq_mul, mul_comm] at hsum
  rw [sum_eq_sum]
  exact (le_div_iff₀ hpos).2 hsum

end Field

/-! ## 3. Numerals -/

/-- A numeral asks for this instance.  As a constant it leaves no proof in the definitions that
write the numeral. -/
instance atLeastTwo_two : Nat.AtLeastTwo 2 := ⟨Nat.le_refl 2⟩

/-- The same for three. -/
instance atLeastTwo_three : Nat.AtLeastTwo 3 := ⟨Nat.le_succ 2⟩

end Scalar

end LargeNeighbourhood
