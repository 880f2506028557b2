/-
# Draws in exact arithmetic

A fraction lies in `[0, 1)`, since a word is below `2³²`.  So its part of a positive total is below
the total, and the sum of all weights.  A choice by weight among entries with no negative weight and
a positive total therefore finds an entry whose prefix sum is above that part, and does not come to
what rounded arithmetic would need after that (`weighted_eq`).
-/
import Mathlib
import LargeNeighbourhood.Proofs.Scalar.Exact
import LargeNeighbourhood.Random.Weighted

namespace LargeNeighbourhood

variable {K : Type} [Field K] [LinearOrder K] [IsStrictOrderedRing K]

/-! ## 1. Fractions -/

theorem Draw.fraction_nonneg (w : UInt32) : (0 : K) ≤ Draw.fraction w :=
  Scalar.ratio_nonneg _ _

theorem Draw.fraction_lt_one (w : UInt32) : (Draw.fraction w : K) < 1 :=
  Scalar.ratio_lt_one w.toNat_lt

/-- A drawn fraction is below one. -/
theorem Draw.uniform_lt_one (g : Generator) : ((Draw.uniform : Draw K) g).1 < 1 :=
  Draw.fraction_lt_one _

/-! ## 2. Choices by weight -/

namespace Sampling

variable {α : Type} {entries : List (K × α)}

omit [Field K] [LinearOrder K] [IsStrictOrderedRing K] in
/-- The second sampling draws where the first one ended, unless that failed. -/
theorem bind_apply {β : Type} (d : Sampling K α) (next : α → Sampling K β) (g : Generator) :
    (d >>= next) g = match (d g : Except (Fault K) α × Generator) with
      | (.ok a, g') => next a g'
      | (.error f, g') => (.error f, g') := by
  show ExceptT.bindCont next (d g : Except (Fault K) α × Generator).1 (d g : _ × Generator).2 = _
  rcases (d g : Except (Fault K) α × Generator) with ⟨_ | a, g'⟩ <;> rfl

omit [Field K] [LinearOrder K] [IsStrictOrderedRing K] in
/-- A sampling that begins with a plain draw goes on with what was drawn. -/
theorem draw_bind_apply {β : Type} (d : Draw α) (next : α → Sampling K β) (g : Generator) :
    ((liftM d : Sampling K α) >>= next) g
      = next (d g : α × Generator).1 (d g : α × Generator).2 := rfl

omit [IsStrictOrderedRing K] in
/-- Where no weight is negative, the total is their sum. -/
theorem total_eq (h : ∀ e ∈ entries, 0 ≤ e.1) (acc : K) :
    total acc entries = .ok (acc + (entries.map Prod.fst).sum) := by
  induction entries generalizing acc with
  | nil => simp [total]
  | cons e rest ih =>
    obtain ⟨he, hrest⟩ := List.forall_mem_cons.1 h
    rw [total, if_neg (not_lt.2 he), ih hrest, List.map_cons, List.sum_cons, add_assoc]

omit [IsStrictOrderedRing K] in
theorem positiveTotal_eq (h : ∀ e ∈ entries, 0 ≤ e.1) (hpos : 0 < (entries.map Prod.fst).sum) :
    positiveTotal entries = .ok (entries.map Prod.fst).sum := by
  unfold positiveTotal
  rw [total_eq h, zero_add]
  exact if_pos hpos

omit [IsStrictOrderedRing K] in
/-- A number below the sum of all weights lies between two prefix sums in a row, and the entry
between them is the first whose prefix sum is above the number. -/
theorem exists_firstAbove {r acc : K} (hle : acc ≤ r)
    (hlt : r < acc + (entries.map Prod.fst).sum) :
    ∃ i, ∃ h : i < entries.length, firstAbove r acc entries = some entries[i].2 ∧
      acc + ((entries.map Prod.fst).take i).sum ≤ r ∧
      r < acc + ((entries.map Prod.fst).take (i + 1)).sum := by
  induction entries generalizing acc with
  | nil => exact absurd hlt (not_lt.2 (by simpa using hle))
  | cons e rest ih =>
    rw [firstAbove]
    by_cases hfirst : r < acc + e.1
    · refine ⟨0, Nat.succ_pos _, if_pos hfirst, ?_, ?_⟩
      · simpa using hle
      · simpa using hfirst
    · rw [List.map_cons, List.sum_cons, ← add_assoc] at hlt
      obtain ⟨i, hi, hfound, hlow, hhigh⟩ := ih (not_lt.1 hfirst) hlt
      rw [add_assoc, ← List.sum_cons] at hlow hhigh
      exact ⟨i + 1, Nat.succ_lt_succ hi, (if_neg hfirst).trans hfound, hlow, hhigh⟩

/-- **A choice by weight inverts the distribution function.**  Where no weight is negative and the
total is positive, one word is drawn, and the entry chosen is the one at which the prefix sums pass
the fraction of the total that the word stands for. -/
theorem weighted_eq (h : ∀ e ∈ entries, 0 ≤ e.1) (hpos : 0 < (entries.map Prod.fst).sum)
    (g : Generator) :
    let r := Draw.fraction g.next.1 * (entries.map Prod.fst).sum
    ∃ i, ∃ hi : i < entries.length, weighted entries g = (.ok entries[i].2, g.next.2) ∧
      firstAbove r 0 entries = some entries[i].2 ∧
      ((entries.map Prod.fst).take i).sum ≤ r ∧
      r < ((entries.map Prod.fst).take (i + 1)).sum := by
  intro r
  have hnonneg : 0 ≤ r := mul_nonneg (Draw.fraction_nonneg _) hpos.le
  have hlt : r < 0 + (entries.map Prod.fst).sum := by
    rw [zero_add]
    exact mul_lt_of_lt_one_left hpos (Draw.fraction_lt_one _)
  obtain ⟨i, hi, hfound, hlow, hhigh⟩ := exists_firstAbove hnonneg hlt
  rw [zero_add] at hlow hhigh
  refine ⟨i, hi, ?_, hfound, hlow, hhigh⟩
  cases entries with
  | nil => exact absurd hi (Nat.not_lt_zero i)
  | cons first rest =>
    have hchosen : (firstAbove r 0 (first :: rest)).getD (lastPositive first rest)
        = (first :: rest)[i].2 := by
      rw [hfound, Option.getD_some]
    unfold weighted
    simp only
    rw [positiveTotal_eq h hpos]
    exact congrArg (fun a => (Except.ok a, g.next.2)) hchosen

/-- A choice by positive weights succeeds, and it is one of the entries. -/
theorem weighted_ok (hne : entries ≠ []) (h : ∀ e ∈ entries, 0 < e.1) (g : Generator) :
    ∃ a ∈ entries.map Prod.snd,
      weighted entries g = (.ok a, (Draw.uniform g : K × Generator).2) := by
  have hpos : 0 < (entries.map Prod.fst).sum := by
    refine List.sum_pos _ ?_ (by simpa using hne)
    intro x hx
    obtain ⟨e, he, rfl⟩ := List.mem_map.1 hx
    exact h e he
  obtain ⟨i, hi, hchosen, -⟩ := weighted_eq (fun e he => (h e he).le) hpos g
  exact ⟨_, List.mem_map_of_mem (List.getElem_mem hi), hchosen⟩

end Sampling

end LargeNeighbourhood
