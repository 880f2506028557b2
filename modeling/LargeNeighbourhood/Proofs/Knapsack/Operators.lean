/-
# What the operators do to a packing

A removal takes a packing to one with fewer items, and that stays feasible.  An insertion goes
through all items in some order and carries the weight packed so far along.  What it keeps is
`Filling`: the weight it carries is the weight of the packing, the packing is feasible and still
has the items it began with, and every item that was tried and is left out does not fit.  Such an
item stays out, since the packing only becomes heavier, so when all items were tried the packing is
full (`Feasible.insertInOrder`).

The order comes from a shuffle or from a sort by density.  Of the sort nothing is used but that it
rearranges, so the operators are stated for any rearrangement (`Removal`, `Insertion`); the
operators that sort stably are among them.
-/
import Mathlib
import LargeNeighbourhood.Proofs.Act
import LargeNeighbourhood.Proofs.Knapsack.Packing
import LargeNeighbourhood.Proofs.Random.Shuffle
import LargeNeighbourhood.Proofs.Search.Heredity

namespace LargeNeighbourhood.Knapsack

open Act

/-! ## 1. Removals -/

namespace Packing

variable {K : Type}

/-- A removal from the front of an order of the packed items. -/
def removeFirst (order : Packing K → List Nat) (p : Packing K) : Draw (Packing K) := do
  let k ← Draw.integer 1 3
  return p.unpack ((order p).take k.toNat)

theorem exists_removeFirst (order : Packing K → List Nat) (p : Packing K) (g : Generator) :
    ∃ indices, (p.removeFirst order g).1 = p.unpack indices := ⟨_, rfl⟩

theorem exists_removeRandom (p : Packing K) (g : Generator) :
    ∃ indices, (p.removeRandom g).1 = p.unpack indices := by
  unfold removeRandom
  split
  · exact ⟨[], rfl⟩
  · exact ⟨_, rfl⟩

section Weights

variable [Field K] [LinearOrder K] [IsStrictOrderedRing K] {problem : Problem K} {p : Packing K}
  {tried order : List Nat} (hweights : problem.WeightsNonneg)
include hweights

/-- **Unpacking keeps a packing feasible.** -/
theorem Feasible.unpack (hp : p.Feasible problem) (indices : List Nat) :
    (p.unpack indices).Feasible problem ∧ (p.unpack indices).chosen ⊆ p.chosen := by
  have hsubset : (p.unpack indices).chosen ⊆ p.chosen := by
    rw [chosen_unpack]
    exact Finset.sdiff_subset
  have hle : (p.unpack indices).weight ≤ p.weight :=
    weight_le_of_subset rfl (hp.problem_eq ▸ hweights) hsubset
  exact ⟨⟨hp.problem_eq, (size_unpack p indices).trans hp.size_eq, hle.trans hp.weight_le⟩,
    hsubset⟩

/-! ## 2. Insertions -/

omit [IsStrictOrderedRing K] hweights in
/-- Trying an item packs it, or it is packed, or it does not fit. -/
theorem insert_cases (hp : p.Feasible problem) (i : Nat) :
    (∃ item, problem.items[i]? = some item ∧ i ∉ p.chosen ∧
        p.weight + item.weight ≤ problem.capacity ∧
        insert (p, p.weight) i = (p.pack i, p.weight + item.weight)) ∨
      insert (p, p.weight) i = (p, p.weight) ∧ ∀ item, problem.items[i]? = some item →
        i ∉ p.chosen → problem.capacity < p.weight + item.weight := by
  obtain rfl := hp.problem_eq
  have hout : ∀ item, p.problem.items[i]? = some item →
      (i ∉ p.chosen ↔ p.packed[i]? = some false) := by
    intro item hitem
    refine not_mem_chosen_iff ?_
    rw [hp.size_eq]
    exact (Array.getElem?_eq_some_iff.1 hitem).1
  simp only [insert]
  split
  · rename_i item hitem hflag
    split
    · rename_i hfits
      exact Or.inl ⟨item, hitem, (hout item hitem).2 hflag, hfits, rfl⟩
    · rename_i hheavy
      refine Or.inr ⟨rfl, fun item' hitem' _ => ?_⟩
      cases hitem.symm.trans hitem'
      exact not_le.1 hheavy
  · rename_i hnot
    exact Or.inr ⟨rfl, fun item hitem hin => absurd ((hout item hitem).1 hin) (hnot item hitem)⟩

/-- Where a filling up stands that began with `p` and has tried these items. -/
structure Filling (problem : Problem K) (p : Packing K) (tried : List Nat)
    (state : Packing K × K) : Prop where
  carried : state.2 = state.1.weight
  feasible : state.1.Feasible problem
  subset : p.chosen ⊆ state.1.chosen
  heavy : ∀ i ∈ tried, ∀ item, problem.items[i]? = some item → i ∉ state.1.chosen →
    problem.capacity < state.1.weight + item.weight

/-- Trying one more item. -/
theorem Filling.insert {state : Packing K × K} (h : Filling problem p tried state) (i : Nat) :
    Filling problem p (tried ++ [i]) (Packing.insert state i) := by
  obtain ⟨q, weight⟩ := state
  obtain rfl : weight = q.weight := h.carried
  have hfeasible : q.Feasible problem := h.feasible
  rcases insert_cases hfeasible i with
    ⟨item, hitem, hout, hfits, hinsert⟩ | ⟨hinsert, hheavy⟩
  · have hlt : i < q.packed.size := by
      rw [hfeasible.size_eq]
      exact (Array.getElem?_eq_some_iff.1 hitem).1
    have hweight : (q.pack i).weight = q.weight + item.weight := by
      rw [weight_pack hlt hout, hfeasible.problem_eq, Problem.load_eq hitem]
    have hgrows : q.chosen ⊆ (q.pack i).chosen := by
      rw [chosen_pack hlt]
      exact Finset.subset_union_left
    rw [hinsert]
    refine ⟨hweight.symm, ⟨hfeasible.problem_eq, (size_pack q i).trans hfeasible.size_eq, ?_⟩,
      h.subset.trans hgrows, ?_⟩
    · rw [hweight]
      exact hfits
    · -- an item that did not fit before does not fit on top of more
      intro j hj other hother hleft
      rcases List.mem_append.1 hj with hj | hj
      · have hmore : q.weight ≤ (q.pack i).weight :=
          weight_le_of_subset rfl (hfeasible.problem_eq ▸ hweights) hgrows
        exact (h.heavy j hj other hother fun hin => hleft (hgrows hin)).trans_le
          (add_le_add_left hmore _)
      · cases List.mem_singleton.1 hj
        rw [chosen_pack hlt] at hleft
        exact absurd (Finset.mem_union_right _ (Finset.mem_singleton_self i)) hleft
  · rw [hinsert]
    refine ⟨rfl, hfeasible, h.subset, ?_⟩
    intro j hj other hother hleft
    rcases List.mem_append.1 hj with hj | hj
    · exact h.heavy j hj other hother hleft
    · cases List.mem_singleton.1 hj
      exact hheavy other hother hleft

/-- Trying more items in a row. -/
theorem Filling.foldl {state : Packing K × K} (h : Filling problem p tried state)
    (order : List Nat) :
    Filling problem p (tried ++ order) (order.foldl Packing.insert state) := by
  induction order generalizing tried state with
  | nil => simpa using h
  | cons i order ih =>
    rw [List.foldl_cons, List.append_cons]
    exact ih (h.insert hweights i)

/-- **Filling up in any order of all items** makes a feasible, full packing with the items that
were packed before. -/
theorem Feasible.insertInOrder (hp : p.Feasible problem)
    (horder : order.Perm (List.range problem.items.size)) :
    (p.insertInOrder order).Feasible problem ∧ p.chosen ⊆ (p.insertInOrder order).chosen ∧
      (p.insertInOrder order).Full := by
  have hbegin : Filling problem p [] (p, p.weight) :=
    ⟨rfl, hp, Finset.Subset.refl _, fun _ h => absurd h List.not_mem_nil⟩
  have hend := hbegin.foldl hweights order
  refine ⟨hend.feasible, hend.subset, ?_⟩
  intro i item hitem hout
  have hproblem : (p.insertInOrder order).problem = problem := hend.feasible.problem_eq
  rw [hproblem] at hitem ⊢
  have hmem : i ∈ [] ++ order := by
    rw [List.nil_append, horder.mem_iff, List.mem_range]
    exact (Array.getElem?_eq_some_iff.1 hitem).1
  exact hend.heavy i hmem item hitem hout

end Weights

end Packing

/-! ## 3. The operators -/

section Operators

variable {K ω : Type}

/-- An operator that draws makes of a packing what any generator makes it draw. -/
theorem makes_operator {change : Packing K → Draw (Packing K)} {p : Packing K}
    {Q : Packing K → Prop} (h : ∀ g, Q (change p g).1) :
    Operator.Makes (operator change : Operator K (Packing K) ω) p Q := by
  intro w
  refine ⟨(change p w.rng).1, { w with rng := (change p w.rng).2 }, ?_, h w.rng⟩
  rw [operator, result_map, result_draw]
  rfl

variable [Field K] [LinearOrder K]

/-- Removals: of random items, or from the front of some order of the packed items. -/
inductive Removal : Operator K (Packing K) ω → Prop
  | random : Removal (operator Packing.removeRandom)
  | first {order : Packing K → List Nat} (rearranges : ∀ p, (order p).Perm p.inside) :
      Removal (operator (Packing.removeFirst order))

/-- Insertions: in random order, or in some order of all items. -/
inductive Insertion : Operator K (Packing K) ω → Prop
  | random : Insertion (operator Packing.insertRandom)
  | inOrder {order : Packing K → List Nat}
      (rearranges : ∀ p, (order p).Perm (List.range p.problem.items.size)) :
      Insertion (operator fun p => pure (p.insertInOrder (order p)))

/-- The removal of the worst items is one. -/
theorem removal_worst : Removal (operator Packing.removeWorst : Operator K (Packing K) ω) := by
  change Removal (operator (Packing.removeFirst Packing.worstFirst))
  exact .first fun p => List.mergeSort_perm p.inside _

/-- The greedy insertion is one. -/
theorem insertion_greedy :
    Insertion (operator fun p => pure p.insertGreedy : Operator K (Packing K) ω) := by
  change Insertion (operator fun p => pure (p.insertInOrder p.bestFirst))
  exact .inOrder fun p => List.mergeSort_perm (List.range p.problem.items.size) _

variable [IsStrictOrderedRing K] {problem : Problem K}

/-- **Removals keep packings feasible.** -/
theorem Removal.makes {op : Operator K (Packing K) ω} (h : Removal op)
    (hweights : problem.WeightsNonneg) {p : Packing K} (hp : p.Feasible problem) :
    op.Makes p fun q => q.Feasible problem ∧ q.chosen ⊆ p.chosen := by
  cases h with
  | random =>
    refine makes_operator fun g => ?_
    obtain ⟨indices, hq⟩ := p.exists_removeRandom g
    rw [hq]
    exact hp.unpack hweights indices
  | @first order _ =>
    refine makes_operator fun g => ?_
    obtain ⟨indices, hq⟩ := p.exists_removeFirst order g
    rw [hq]
    exact hp.unpack hweights indices

/-- **Insertions keep packings feasible and leave no item out that fits.** -/
theorem Insertion.makes {op : Operator K (Packing K) ω} (h : Insertion op)
    (hweights : problem.WeightsNonneg) {p : Packing K} (hp : p.Feasible problem) :
    op.Makes p fun q => q.Feasible problem ∧ p.chosen ⊆ q.chosen ∧ q.Full := by
  cases h with
  | random =>
    refine makes_operator fun g => hp.insertInOrder hweights ?_
    rw [← hp.size_eq]
    exact Draw.shuffle_perm p.packed.size g
  | inOrder rearranges =>
    refine makes_operator fun g => hp.insertInOrder hweights ?_
    rw [← hp.problem_eq]
    exact rearranges p

end Operators

end LargeNeighbourhood.Knapsack
