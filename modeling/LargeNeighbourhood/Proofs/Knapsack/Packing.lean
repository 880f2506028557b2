/-
# Packings as sets of indices

What an operator does to a packing it does to the set of the packed indices: unpacking takes some
indices away (`chosen_unpack`), packing an item puts one in (`chosen_pack`).  The weight of a
packing is the sum over this set (`weight_eq_sum`).  So it goes up by the weight of an item that is
packed, and, as long as no item weighs less than nothing, it is monotone in the set.

A packing is feasible for a problem if it has one flag for each item and is no heavier than the
capacity, and it is full if no item that was left out fits on top.
-/
import Mathlib
import LargeNeighbourhood.Knapsack.Operators
import LargeNeighbourhood.Proofs.Scalar.Exact

namespace LargeNeighbourhood.Knapsack

namespace Packing

variable {K : Type} {p q : Packing K} {i : Nat} {indices : List Nat}

/-! ## 1. The packed indices -/

/-- The indices of the packed items. -/
def chosen (p : Packing K) : Finset Nat := p.inside.toFinset

theorem lt_size_of_holds (h : p.holds i = true) : i < p.packed.size := by
  by_contra hge
  rw [holds, Array.getElem?_eq_none (Nat.le_of_not_lt hge)] at h
  exact absurd h (by simp)

theorem mem_inside : i ∈ p.inside ↔ p.holds i = true := by
  rw [inside, List.mem_filter, List.mem_range]
  exact ⟨And.right, fun h => ⟨lt_size_of_holds h, h⟩⟩

theorem mem_chosen : i ∈ p.chosen ↔ p.holds i = true := by
  rw [chosen, List.mem_toFinset, mem_inside]

/-- An item that is there is left out exactly when its flag says so. -/
theorem not_mem_chosen_iff (h : i < p.packed.size) :
    i ∉ p.chosen ↔ p.packed[i]? = some false := by
  rw [mem_chosen, holds, Array.getElem?_eq_getElem h]
  simp

theorem chosen_empty (problem : Problem K) : (empty problem).chosen = ∅ := by
  refine Finset.eq_empty_of_forall_notMem fun i hi => ?_
  rw [mem_chosen, holds, empty, Array.getElem?_replicate] at hi
  split at hi <;> exact absurd hi (by simp)

/-! ### Unpacking -/

theorem getElem?_foldl_setIfInBounds (flags : Array Bool) (i : Nat) :
    (indices.foldl (fun flags j => flags.setIfInBounds j false) flags)[i]?
      = if i ∈ indices then flags[i]?.map fun _ => false else flags[i]? := by
  induction indices generalizing flags with
  | nil => simp
  | cons j indices ih =>
    rw [List.foldl_cons, ih, Array.getElem?_setIfInBounds]
    by_cases hj : j = i
    · subst hj
      by_cases hlt : j < flags.size
      · simp [hlt]
      · simp [hlt]
    · have hne : i ≠ j := fun h => hj h.symm
      simp [hj, hne]

@[simp] theorem size_unpack (p : Packing K) (indices : List Nat) :
    (p.unpack indices).packed.size = p.packed.size := by
  unfold unpack
  induction indices generalizing p with
  | nil => rfl
  | cons j indices ih =>
    rw [List.foldl_cons]
    exact (ih { p with packed := p.packed.setIfInBounds j false }).trans Array.size_setIfInBounds

/-- Unpacking takes the indices away and does nothing else. -/
theorem chosen_unpack (p : Packing K) (indices : List Nat) :
    (p.unpack indices).chosen = p.chosen \ indices.toFinset := by
  ext i
  rw [Finset.mem_sdiff, mem_chosen, mem_chosen, List.mem_toFinset, holds, holds, unpack,
    getElem?_foldl_setIfInBounds]
  by_cases hmem : i ∈ indices
  · cases p.packed[i]? <;> simp [hmem]
  · simp [hmem]

/-! ### Packing -/

/-- The packing with the item at an index. -/
def pack (p : Packing K) (i : Nat) : Packing K :=
  { p with packed := p.packed.setIfInBounds i true }

@[simp] theorem size_pack (p : Packing K) (i : Nat) : (p.pack i).packed.size = p.packed.size :=
  Array.size_setIfInBounds

@[simp] theorem problem_pack (p : Packing K) (i : Nat) : (p.pack i).problem = p.problem := rfl

/-- Packing puts the index in and does nothing else. -/
theorem chosen_pack (h : i < p.packed.size) : (p.pack i).chosen = p.chosen ∪ {i} := by
  ext j
  rw [Finset.mem_union, Finset.mem_singleton, mem_chosen, mem_chosen, holds, holds, pack,
    Array.getElem?_setIfInBounds]
  by_cases hj : i = j
  · subst hj
    simp [h]
  · have hne : j ≠ i := fun h => hj h.symm
    simp [hj, hne]

end Packing

/-! ## 2. Weights -/

section Weights

variable {K : Type} [Field K] [LinearOrder K]

/-- The weight of the item at an index, nothing if there is none. -/
def Problem.load (problem : Problem K) (i : Nat) : K :=
  (problem.items[i]?.map Item.weight).getD 0

/-- No item weighs less than nothing. -/
def Problem.WeightsNonneg (problem : Problem K) : Prop := ∀ item ∈ problem.items, 0 ≤ item.weight

theorem Problem.load_eq {problem : Problem K} {i : Nat} {item : Item K}
    (h : problem.items[i]? = some item) : problem.load i = item.weight := by
  rw [load, h]
  rfl

theorem Problem.WeightsNonneg.load_nonneg {problem : Problem K} (h : problem.WeightsNonneg) (i : Nat) :
    0 ≤ problem.load i := by
  unfold load
  cases hi : problem.items[i]? with
  | none => exact le_rfl
  | some item => exact h item (Array.mem_of_getElem? hi)

namespace Packing

/-- The weight of flagged items, list against list, summed over the indices instead. -/
theorem sum_weight_flagged (items : List (Item K)) (flags : List Bool) :
    (((items.zip flags).filterMap fun (item, packed) => if packed then some item else none).map
      Item.weight).sum
      = ∑ i ∈ Finset.range flags.length,
          if flags[i]?.getD false then (items[i]?.map Item.weight).getD 0 else 0 := by
  induction flags generalizing items with
  | nil => simp
  | cons packed flags ih =>
    cases items with
    | nil => simp
    | cons item items =>
      rw [List.length_cons, Finset.sum_range_succ']
      simp only [List.getElem?_cons_succ, List.getElem?_cons_zero, ← ih items]
      cases packed <;> simp [add_comm]

/-- **The weight of a packing is the weight of its indices.** -/
theorem weight_eq_sum (p : Packing K) : p.weight = ∑ i ∈ p.chosen, p.problem.load i := by
  have hchosen : p.chosen = (Finset.range p.packed.size).filter fun i => p.holds i = true := by
    ext i
    rw [Finset.mem_filter, Finset.mem_range, mem_chosen]
    exact ⟨fun h => ⟨lt_size_of_holds h, h⟩, And.right⟩
  rw [hchosen, Finset.sum_filter, weight, Scalar.sum_eq_sum, contents, sum_weight_flagged]
  simp only [Array.length_toList, Array.getElem?_toList]
  rfl

/-- A packing without some indices is no heavier. -/
theorem weight_le_of_subset [IsStrictOrderedRing K] {p q : Packing K}
    (hproblem : q.problem = p.problem) (hweights : p.problem.WeightsNonneg)
    (h : p.chosen ⊆ q.chosen) : p.weight ≤ q.weight := by
  rw [weight_eq_sum, weight_eq_sum, hproblem]
  exact Finset.sum_le_sum_of_subset_of_nonneg h fun i _ _ => hweights.load_nonneg i

/-- Packing an item that was left out adds its weight. -/
theorem weight_pack {p : Packing K} {i : Nat} (hlt : i < p.packed.size) (hout : i ∉ p.chosen) :
    (p.pack i).weight = p.weight + p.problem.load i := by
  rw [weight_eq_sum, weight_eq_sum, chosen_pack hlt, problem_pack,
    Finset.sum_union (Finset.disjoint_singleton_right.2 hout), Finset.sum_singleton]

/-! ## 3. Feasible packings and full ones -/

/-- One flag for each item of the problem, and no heavier than the capacity. -/
structure Feasible (problem : Problem K) (p : Packing K) : Prop where
  problem_eq : p.problem = problem
  size_eq : p.packed.size = problem.items.size
  weight_le : p.weight ≤ problem.capacity

/-- Nothing is packed, and nothing is heavier than the capacity. -/
theorem Feasible.empty {problem : Problem K} (h : 0 ≤ problem.capacity) :
    (Packing.empty problem).Feasible problem where
  problem_eq := rfl
  size_eq := Array.size_replicate
  weight_le := by
    rw [weight_eq_sum, chosen_empty, Finset.sum_empty]
    exact h

/-- No item that was left out fits on top. -/
def Full (p : Packing K) : Prop :=
  ∀ (i : Nat) (item : Item K), p.problem.items[i]? = some item → i ∉ p.chosen →
    p.problem.capacity < p.weight + item.weight

end Packing

end Weights

end LargeNeighbourhood.Knapsack
