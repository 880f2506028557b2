/-
# The cells of the confidence bound

The means and the counts stand in two arrays with a cell for every pair of the matrix.  A report
writes one cell of each.  No two pairs inside the matrix share a cell, so a report changes what is
known of its own pair and of no other (`known_absorb`).

A proposal looks at the arms, the legal pairs with what their cells hold.  Each legal pair has one
arm (`mem_arms`), and after a report the arms are what they were, but for that of the pair, which
took the score in (`arms_absorb`).  So whoever thinks of a list of arms, each with an estimate of
its own, is right about every proposal.
-/
import Mathlib
import LargeNeighbourhood.Proofs.Checks
import LargeNeighbourhood.Proofs.Selection.Table
import LargeNeighbourhood.Selection.ConfidenceBound

namespace LargeNeighbourhood

namespace ConfidenceBound

variable {K : Type} [Scalar K] {s : ConfidenceBound K} {a : Arm K} {dr x : Nat × Nat}

/-! ## 1. Arms and cells -/

/-- The arms are the legal pairs, each with what its cells hold. -/
theorem mem_arms : a ∈ s.arms ↔
    s.coupling.allows a.pair.1 a.pair.2 = true ∧ a.estimate = s.known a.pair := by
  rw [arms, s.table.pairs_eq, List.toList_toArray, List.mem_map]
  constructor
  · rintro ⟨pair, hpair, rfl⟩
    exact ⟨Coupling.mem_legalPairs.1 hpair, rfl⟩
  · rintro ⟨hlegal, hknown⟩
    exact ⟨a.pair, Coupling.mem_legalPairs.2 hlegal, by rw [← hknown]⟩

/-- Every arm is that of a legal pair ... -/
theorem allows_of_mem_arms (h : a ∈ s.arms) : s.coupling.allows a.pair.1 a.pair.2 = true :=
  (mem_arms.1 h).1

/-- ... and every legal pair has an arm. -/
theorem exists_mem_arms (h : s.coupling.allows dr.1 dr.2 = true) : ∃ a ∈ s.arms, a.pair = dr :=
  ⟨⟨dr, s.known dr⟩, mem_arms.2 ⟨h, rfl⟩, rfl⟩

/-! ## 2. New schemes and reports -/

/-- In a new scheme every pair promises one, and none was reported. -/
theorem known_of_make {scores : List K} {alpha : K} {numDestroy numRepair : Nat}
    {coupling? : Option Coupling} (h : make scores alpha numDestroy numRepair coupling? = .ok s)
    (dr : Nat × Nat) : s.known dr = { mean := 1 } := by
  unfold make at h
  obtain ⟨⟨c, usable⟩, -, h⟩ := Checks.bind_ok_iff.1 h
  obtain ⟨scores', -, h⟩ := Checks.bind_ok_iff.1 h
  obtain ⟨-, h⟩ := Checks.guard_ok_iff.1 h
  cases Checks.pure_ok_iff.1 h
  simp only [known, Array.getElem?_replicate]
  split <;> rfl

/-- **A report changes what is known of its pair**, and of no other. -/
theorem known_absorb (hdr : s.coupling.allows dr.1 dr.2 = true)
    (hx : s.coupling.allows x.1 x.2 = true) (score : K) :
    (s.absorb dr score).known x = if x = dr then (s.known dr).absorb score else s.known x := by
  have hmeans : s.table.cell dr < s.means.size := by
    rw [s.size_means]
    exact PairTable.cell_lt_of_allows hdr
  have hcounts : s.table.cell dr < s.counts.size := by
    rw [s.size_counts]
    exact PairTable.cell_lt_of_allows hdr
  unfold absorb known
  by_cases h : x = dr
  · rw [if_pos h, h]
    simp only [Array.getElem?_setIfInBounds_self_of_lt hmeans,
      Array.getElem?_setIfInBounds_self_of_lt hcounts, Option.getD_some]
  · have hcell : s.table.cell dr ≠ s.table.cell x := fun heq =>
      h ((PairTable.cell_eq_iff hdr hx).1 heq).symm
    rw [if_neg h]
    simp only [Array.getElem?_setIfInBounds_ne hcell]

/-- The arms after a report, had each kept an estimate of its own. -/
theorem arms_absorb (hdr : s.coupling.allows dr.1 dr.2 = true) (score : K) :
    (s.absorb dr score).arms = s.arms.map fun a =>
      if a.pair = dr then { a with estimate := a.estimate.absorb score } else a := by
  rw [arms, arms, List.map_map]
  refine List.map_congr_left fun x hx => ?_
  rw [PairTable.pairs_eq, List.toList_toArray] at hx
  rw [known_absorb hdr (Coupling.mem_legalPairs.1 hx), Function.comp_apply]
  by_cases h : x = dr
  · rw [if_pos h, if_pos h, h]
  · rw [if_neg h, if_neg h]

end ConfidenceBound

end LargeNeighbourhood
