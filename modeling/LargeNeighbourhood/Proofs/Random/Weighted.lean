/-
# A choice by weight in exact arithmetic

The weights of a list, laid end to end, cover the interval from zero to their total.  The word drawn
stands for a fraction of the total, and the position chosen is the one whose part of the interval
holds it.  No two parts overlap where no weight is negative, so there is one such position only, and
its weight is positive.

A choice is refused in three cases, each known before a word is drawn: there are no weights, one of
them is negative, or they sum to zero (`Refused`).
-/
import Mathlib
import LargeNeighbourhood.Proofs.Random.Draws

namespace LargeNeighbourhood

namespace Sampling

variable {K : Type} [Field K] [LinearOrder K] [IsStrictOrderedRing K]

/-! ## 1. Refusals -/

/-- The weights from which nothing is chosen. -/
def Refused (weights : List K) : Prop :=
  weights = [] ∨ (∃ w ∈ weights, w < 0) ∨ weights.sum = 0

variable {α : Type} {entries : List (K × α)}

omit [IsStrictOrderedRing K] in
/-- A negative weight stops the sum, wherever it stands. -/
theorem total_error (h : ∃ e ∈ entries, e.1 < 0) (acc : K) :
    total acc entries = .error .negativeWeight := by
  induction entries generalizing acc with
  | nil =>
    obtain ⟨e, he, -⟩ := h
    exact absurd he List.not_mem_nil
  | cons first rest ih =>
    rw [total]
    by_cases hfirst : first.1 < 0
    · rw [if_pos hfirst]
    · rw [if_neg hfirst]
      refine ih ?_ _
      obtain ⟨e, he, hneg⟩ := h
      rcases List.mem_cons.1 he with rfl | he
      · exact absurd hneg hfirst
      · exact ⟨e, he, hneg⟩

omit [IsStrictOrderedRing K] in
theorem positiveTotal_error (h : Refused (entries.map Prod.fst)) (hne : entries ≠ []) :
    ∃ f, positiveTotal entries = .error f ∧ f.kind = .runtime := by
  by_cases hneg : ∃ e ∈ entries, e.1 < 0
  · refine ⟨.negativeWeight, ?_, rfl⟩
    rw [positiveTotal, total_error hneg]
    rfl
  · have hnonneg : ∀ e ∈ entries, 0 ≤ e.1 := fun e he => not_lt.1 fun hlt => hneg ⟨e, he, hlt⟩
    have hzero : (entries.map Prod.fst).sum = 0 := by
      rcases h with hnil | ⟨w, hw, hlt⟩ | hzero
      · exact absurd (List.map_eq_nil_iff.1 hnil) hne
      · obtain ⟨e, he, rfl⟩ := List.mem_map.1 hw
        exact absurd ⟨e, he, hlt⟩ hneg
      · exact hzero
    refine ⟨.zeroTotalWeight, ?_, rfl⟩
    rw [positiveTotal, total_eq hnonneg, hzero, add_zero]
    exact if_neg (lt_irrefl 0)

omit [IsStrictOrderedRing K] in
/-- Nothing is drawn for a choice that is refused. -/
theorem weighted_error (h : Refused (entries.map Prod.fst)) (g : Generator) :
    ∃ f, weighted entries g = (.error f, g) ∧ f.kind = .runtime := by
  cases entries with
  | nil => exact ⟨.noWeights, rfl, rfl⟩
  | cons first rest =>
    obtain ⟨f, hf, hkind⟩ := positiveTotal_error h (List.cons_ne_nil _ _)
    refine ⟨f, ?_, hkind⟩
    unfold weighted
    simp only
    rw [hf]
    rfl

/-! ## 2. The part of the total that a position covers -/

variable {weights : List K} {r : K} {i j : ℕ}

/-- Where no weight is negative, prefix sums do not fall. -/
theorem sum_take_le (h : ∀ w ∈ weights, 0 ≤ w) (hij : i ≤ j) :
    (weights.take i).sum ≤ (weights.take j).sum :=
  (List.take_sublist_take_left hij).sum_le_sum fun w hw => h w (List.mem_of_mem_take hw)

/-- Different positions cover nothing in common. -/
theorem eq_of_covers (h : ∀ w ∈ weights, 0 ≤ w)
    (hi : (weights.take i).sum ≤ r ∧ r < (weights.take (i + 1)).sum)
    (hj : (weights.take j).sum ≤ r ∧ r < (weights.take (j + 1)).sum) : i = j := by
  rcases lt_trichotomy i j with hlt | heq | hlt
  · exact absurd (hi.2.trans_le ((sum_take_le h hlt).trans hj.1)) (lt_irrefl _)
  · exact heq
  · exact absurd (hj.2.trans_le ((sum_take_le h hlt).trans hi.1)) (lt_irrefl _)

/-! ## 3. Positions -/

/-- **A position is chosen by inverting the distribution function.**  A choice from refused weights
fails and draws nothing.  Any other draws one word, and returns the only position whose part of the
total holds the fraction `u` of it that the word stands for.  The first pass over the prefix sums
finds the position, and its weight is positive. -/
theorem weightedIndex_inverts_distribution (weights : List K) (g : Generator) :
    let r := (g.next.1.toNat : K) / 2 ^ 32 * weights.sum
    (Refused weights → ∃ f, weightedIndex weights g = (.error f, g) ∧ f.kind = .runtime) ∧
    (¬Refused weights →
      ∃ i, ∃ hi : i < weights.length, weightedIndex weights g = (.ok i, g.next.2) ∧
        firstAbove r 0 weights.zipIdx = some i ∧ 0 < weights[i] ∧
        ∀ j, (weights.take j).sum ≤ r ∧ r < (weights.take (j + 1)).sum ↔ j = i) := by
  intro r
  have hweights : weights.zipIdx.map Prod.fst = weights := List.zipIdx_map_fst 0 weights
  have hr : Draw.fraction g.next.1 * weights.sum = r := by
    simp only [r, Draw.fraction, Scalar.ratio]
    norm_num
  refine ⟨fun h => ?_, fun h => ?_⟩
  · rw [weightedIndex]
    exact weighted_error (by rwa [hweights]) g
  · obtain ⟨-, hrest⟩ := not_or.1 h
    obtain ⟨hnoneg, hzero⟩ := not_or.1 hrest
    have hnonneg : ∀ w ∈ weights, 0 ≤ w := fun w hw => not_lt.1 fun hlt => hnoneg ⟨w, hw, hlt⟩
    have hpos : 0 < weights.sum := (List.sum_nonneg hnonneg).lt_of_ne' hzero
    have hentries : ∀ e ∈ weights.zipIdx, 0 ≤ e.1 := fun e he =>
      hnonneg _ (List.fst_mem_of_mem_zipIdx he)
    obtain ⟨i, hi, hchosen, hfound, hlow, hhigh⟩ := weighted_eq hentries (by rwa [hweights]) g
    have hlen : i < weights.length := by rwa [List.length_zipIdx] at hi
    rw [hweights, hr] at hlow hhigh hfound
    have hindex : weights.zipIdx[i].2 = i := by simp
    rw [hindex] at hchosen hfound
    refine ⟨i, hlen, hchosen, hfound, ?_, fun j => ⟨fun hj => ?_, ?_⟩⟩
    · have hstep := List.sum_take_succ weights i hlen
      have hlt := hlow.trans_lt hhigh
      rw [hstep] at hlt
      exact pos_of_lt_add_right hlt
    · exact eq_of_covers hnonneg hj ⟨hlow, hhigh⟩
    · rintro rfl
      exact ⟨hlow, hhigh⟩

/-- With the first word of the seed seven, three of four parts go to the last position, and nothing to
the empty ones; a weight below zero is refused. -/
theorem weightedIndex_inverts_distribution_seven :
    weightedIndex ([0, 1, 0, 3] : List ℚ) (.ofSeed 7) = (.ok 3, (Generator.ofSeed 7).next.2) ∧
      ∃ f, weightedIndex ([1, -1] : List ℚ) (.ofSeed 7) = (.error f, .ofSeed 7) ∧
        f.kind = .runtime := by
  have hword : (Generator.ofSeed 7).next.1.toNat = 3682281251 := by decide
  have hserved : ¬Refused ([0, 1, 0, 3] : List ℚ) := by
    norm_num [Refused, List.cons_ne_nil]
  obtain ⟨i, hi, hchosen, -, -, honly⟩ :=
    (weightedIndex_inverts_distribution ([0, 1, 0, 3] : List ℚ) (.ofSeed 7)).2 hserved
  have hthree : 3 = i := by
    refine (honly 3).1 ?_
    rw [hword]
    norm_num
  rw [← hthree] at hchosen
  exact ⟨hchosen, (weightedIndex_inverts_distribution [1, -1] (.ofSeed 7)).1
    (.inr (.inl ⟨-1, by simp, by norm_num⟩))⟩

end Sampling

end LargeNeighbourhood
