/-
# What a removal takes out

A removal names the items it takes out through another list: a random one draws positions in the
list of the packed items, and one from the front of an order rearranges that list first.  Whatever
comes of it are entries of the list of packed items, each at most once, because the positions are the
front of a permutation (`Sampling.exists_positions`), or because a rearrangement repeats nothing.  Of
such items `Packing.unpack` takes out each one, and touches no other flag (`without_unpack`).

The front of an ascending order is below the rest of it, and what stays packed is the rest
(`density_le_of_front`).  Again nothing is used of a sort but that it rearranges and leaves nothing
in descending order, so this holds of every sort and of the stable one.
-/
import Mathlib
import LargeNeighbourhood.Proofs.Knapsack.Operators
import LargeNeighbourhood.Proofs.Random.Integers
import LargeNeighbourhood.Proofs.Random.Permutations

namespace LargeNeighbourhood

/-! ## 1. Positions -/

/-- What is read from a list at different positions, none of them outside, are entries of the list,
and different ones if the list repeats nothing. -/
theorem nodup_and_subset_of_read {α : Type} {positions : List ℕ} {entries xs : List α}
    (hread : entries.map some = positions.map (xs[·]?)) (hpositions : positions.Nodup)
    (hlt : ∀ j ∈ positions, j < xs.length) (hxs : xs.Nodup) : entries.Nodup ∧ entries ⊆ xs := by
  constructor
  · refine List.Nodup.of_map some ?_
    rw [hread]
    exact hpositions.map_on fun i hi j _ => (List.getElem?_inj (hlt i hi) hxs).1
  · intro a ha
    have hmem : some a ∈ positions.map (xs[·]?) := hread ▸ List.mem_map_of_mem ha
    obtain ⟨j, -, hj⟩ := List.mem_map.1 hmem
    exact List.mem_of_getElem? hj

namespace Knapsack

namespace Packing

/-! ## 2. Packings without some items -/

section Frame

variable {K : Type} {p q : Packing K} {removed : List ℕ} {i : ℕ}

theorem nodup_inside (p : Packing K) : p.inside.Nodup := List.nodup_range.filter _

/-- `q` is `p` without these items, which were packed and are all different, and in nothing else
does it differ. -/
structure Without (p : Packing K) (removed : List ℕ) (q : Packing K) : Prop where
  nodup : removed.Nodup
  packed : ∀ i ∈ removed, p.packed[i]? = some true
  unpacked : ∀ i ∈ removed, q.packed[i]? = some false
  others : ∀ i, i ∉ removed → q.packed[i]? = p.packed[i]?
  problem_eq : q.problem = p.problem
  size_eq : q.packed.size = p.packed.size

theorem holds_iff : p.holds i = true ↔ p.packed[i]? = some true := by
  rw [holds]
  cases p.packed[i]? <;> simp

/-- **Unpacking different packed items** takes them out, and nothing else happens. -/
theorem without_unpack (hnodup : removed.Nodup) (hsubset : removed ⊆ p.inside) :
    p.Without removed (p.unpack removed) := by
  have hpacked : ∀ i ∈ removed, p.packed[i]? = some true := fun i hi =>
    holds_iff.1 (mem_inside.1 (hsubset hi))
  refine ⟨hnodup, hpacked, fun i hi => ?_, fun i hi => ?_, rfl, size_unpack p removed⟩
  · rw [unpack, getElem?_foldl_setIfInBounds, if_pos hi, hpacked i hi]
    rfl
  · rw [unpack, getElem?_foldl_setIfInBounds, if_neg hi]

/-- What is still packed was packed before, and was not taken out. -/
theorem Without.holds_iff (h : p.Without removed q) :
    q.holds i = true ↔ p.holds i = true ∧ i ∉ removed := by
  by_cases hi : i ∈ removed
  · simp [Packing.holds_iff, h.unpacked i hi, hi]
  · simp [Packing.holds_iff, h.others i hi, hi]

/-- As many items are packed fewer as were taken out. -/
theorem Without.length_inside (h : p.Without removed q) :
    q.inside.length + removed.length = p.inside.length := by
  have hperm : p.inside.Perm (q.inside ++ removed) := by
    refine (List.perm_ext_iff_of_nodup p.nodup_inside ?_).2 fun i => ?_
    · refine List.nodup_append'.2 ⟨q.nodup_inside, h.nodup, fun i hi hmem => ?_⟩
      exact (h.holds_iff.1 (mem_inside.1 hi)).2 hmem
    · rw [List.mem_append, mem_inside, mem_inside, h.holds_iff]
      by_cases hi : i ∈ removed
      · simp [hi, Packing.holds_iff, h.packed i hi]
      · simp [hi]
  rw [hperm.length_eq, List.length_append]

end Frame

/-! ## 3. Orders by density -/

section Density

variable {K : Type} [Field K] [LinearOrder K] {p q : Packing K} {order : List ℕ} {n : ℕ}

theorem density_eq {i : ℕ} {item : Item K} (h : p.problem.items[i]? = some item) :
    p.density i = item.value / item.weight := by
  rw [density, h]
  rfl

/-- **The front of an ascending order of the packed items** has no higher density than what is still
packed without it. -/
theorem density_le_of_front (hperm : order.Perm p.inside)
    (hsorted : order.Pairwise fun i j => ¬p.density j < p.density i)
    (hq : p.Without (order.take n) q) {i j : ℕ} (hi : i ∈ order.take n) (hj : q.holds j = true) :
    p.density i ≤ p.density j := by
  obtain ⟨hpacked, hleft⟩ := hq.holds_iff.1 hj
  -- what stays packed stands behind the front
  have hmem : j ∈ order.take n ++ order.drop n := by
    rw [List.take_append_drop]
    exact hperm.mem_iff.2 (mem_inside.2 hpacked)
  have hrest : j ∈ order.drop n := (List.mem_append.1 hmem).resolve_left hleft
  rw [← List.take_append_drop n order] at hsorted
  exact not_lt.1 ((List.pairwise_append.1 hsorted).2.2 i hi j hrest)

/-- The stable sort leaves nothing in descending order. -/
theorem pairwise_worstFirst (p : Packing K) :
    p.worstFirst.Pairwise fun i j => ¬p.density j < p.density i := by
  have hsorted : p.worstFirst.Pairwise fun i j => (!decide (p.density j < p.density i)) = true := by
    refine List.pairwise_mergeSort (fun i j k hij hjk => ?_) (fun i j => ?_) p.inside
    · simp only [Bool.not_eq_true', decide_eq_false_iff_not, not_lt] at hij hjk ⊢
      exact hij.trans hjk
    · simp only [Bool.or_eq_true, Bool.not_eq_true', decide_eq_false_iff_not, not_lt]
      exact le_total _ _
  exact hsorted.imp fun h => by simpa using h

end Density

/-! ## 4. The removals -/

section Removals

variable {K : Type} {p : Packing K}

/-- A sample of nothing is empty and draws nothing, so the empty knapsack is no special case. -/
theorem removeRandom_eq (p : Packing K) (g : Generator) :
    p.removeRandom g = (p.unpack (Draw.subset 3 p.inside.toArray g).1,
      (Draw.subset 3 p.inside.toArray g).2) := by
  unfold removeRandom
  split
  · rename_i hempty
    rw [List.isEmpty_iff.1 hempty]
    rfl
  · rfl

/-- **A random removal** takes out the items at sampled positions. -/
theorem without_removeRandom (p : Packing K) (g : Generator) :
    ∃ (positions : Array ℕ) (removed : List ℕ),
      (Sampling.choice p.inside.length (min 3 p.inside.length : ℕ) : Sampling K (Array ℕ)) g
        = (.ok positions, (p.removeRandom g).2) ∧
      (∀ j ∈ positions.toList, j < p.inside.length) ∧
      removed.map some = positions.toList.map (p.inside[·]?) ∧
      removed.length = min 3 p.inside.length ∧ p.Without removed (p.removeRandom g).1 := by
  obtain ⟨positions, hchoice, hsize, hnodup, hlt, hread⟩ :=
    Sampling.exists_positions (K := K) 3 p.inside.toArray g
  simp only [List.size_toArray, List.getElem?_toArray] at hchoice hsize hlt hread
  obtain ⟨hdistinct, hsubset⟩ := nodup_and_subset_of_read hread hnodup hlt p.nodup_inside
  rw [removeRandom_eq]
  refine ⟨positions, _, hchoice, hlt, hread, ?_, without_unpack hdistinct hsubset⟩
  rw [← List.length_map some, hread, List.length_map, Array.length_toList, hsize]

/-- **A removal from the front of an order** takes out as many items as it drew, or all if there are
fewer. -/
theorem without_removeFirst {order : Packing K → List ℕ} (hperm : (order p).Perm p.inside)
    (g : Generator) :
    ∃ k : ℕ, Draw.integer 1 3 g = ((k : ℤ), g.next.2) ∧ 1 ≤ k ∧ k ≤ 3 ∧
      ((order p).take k).length = min k p.inside.length ∧ (p.removeFirst order g).2 = g.next.2 ∧
      p.Without ((order p).take k) (p.removeFirst order g).1 := by
  obtain ⟨hlow, hhigh⟩ := Draw.integer_mem 1 3 g
  obtain ⟨k, hk⟩ := Int.eq_ofNat_of_zero_le (zero_le_one.trans hlow)
  have hwithout : p.Without ((order p).take k) (p.unpack ((order p).take k)) :=
    without_unpack ((hperm.nodup_iff.2 p.nodup_inside).sublist (List.take_sublist _ _))
      fun i hi => hperm.mem_iff.1 (List.mem_of_mem_take hi)
  have hremoved : (p.removeFirst order g).1 = p.unpack ((order p).take k) := by
    have hcut : (Draw.integer 1 3 g).1.toNat = k := by rw [hk, Int.toNat_natCast]
    rw [← hcut]
    rfl
  refine ⟨k, Prod.ext hk rfl, ?_, ?_, ?_, rfl, hremoved ▸ hwithout⟩
  · omega
  · omega
  · rw [List.length_take, hperm.length_eq]

end Removals

end Packing

open Packing

/-- **A removal takes out what it announces.**  Let a packing have one flag for each item, and let all
items weigh something.  The numbers of its packed items are those of flags and of items.

* A random removal samples three positions in the list of the packed items, all if there are fewer,
  none of them outside.  It takes out the items there, and nothing else happens.
* A removal of the worst items draws an integer from one to three, whatever is packed, and takes out
  as many of the packed items, all if there are fewer, and nothing else happens.  None of them is
  worth more for its weight than one that is still packed.  This holds of whatever sorts the packed
  items, and the stable sort does. -/
theorem removals_take_what_they_announce {K : Type} [Field K] [LinearOrder K]
    [IsStrictOrderedRing K] {p : Packing K} (hsize : p.packed.size = p.problem.items.size)
    (hweights : ∀ item ∈ p.problem.items, 0 < item.weight) (g : Generator) :
    (∀ i ∈ p.inside, i < p.packed.size ∧ i < p.problem.items.size) ∧
    (∃ (positions : Array ℕ) (removed : List ℕ),
      (Sampling.choice p.inside.length (min 3 p.inside.length : ℕ) : Sampling K (Array ℕ)) g
        = (.ok positions, (p.removeRandom g).2) ∧
      (∀ j ∈ positions.toList, j < p.inside.length) ∧
      removed.map some = positions.toList.map (p.inside[·]?) ∧
      removed.length = min 3 p.inside.length ∧ p.Without removed (p.removeRandom g).1 ∧
      (p.removeRandom g).1.inside.length = p.inside.length - min 3 p.inside.length) ∧
    (∀ order : Packing K → List ℕ, (order p).Perm p.inside →
      (order p).Pairwise (fun i j => ¬p.density j < p.density i) →
      ∃ (k : ℕ) (removed : List ℕ), Draw.integer 1 3 g = ((k : ℤ), g.next.2) ∧ 1 ≤ k ∧ k ≤ 3 ∧
        removed.length = min k p.inside.length ∧ (p.removeFirst order g).2 = g.next.2 ∧
        p.Without removed (p.removeFirst order g).1 ∧
        (p.removeFirst order g).1.inside.length = p.inside.length - min k p.inside.length ∧
        ∀ i ∈ removed, ∀ j, (p.removeFirst order g).1.holds j = true →
          ∃ a b, p.problem.items[i]? = some a ∧ p.problem.items[j]? = some b ∧
            a.value / a.weight ≤ b.value / b.weight ∧ a.value * b.weight ≤ b.value * a.weight) ∧
    p.removeWorst = p.removeFirst worstFirst ∧ p.worstFirst.Perm p.inside ∧
    p.worstFirst.Pairwise fun i j => ¬p.density j < p.density i := by
  have hinside : ∀ i ∈ p.inside, i < p.packed.size ∧ i < p.problem.items.size := fun i hi =>
    have hlt := lt_size_of_holds (mem_inside.1 hi)
    ⟨hlt, hsize ▸ hlt⟩
  refine ⟨hinside, ?_, fun order hperm hsorted => ?_, rfl, List.mergeSort_perm _ _,
    pairwise_worstFirst p⟩
  · obtain ⟨positions, removed, hchoice, hlt, hread, hlength, hwithout⟩ := p.without_removeRandom g
    refine ⟨positions, removed, hchoice, hlt, hread, hlength, hwithout, ?_⟩
    rw [← hlength, ← hwithout.length_inside, Nat.add_sub_cancel]
  · obtain ⟨k, hk, hone, hthree, hlength, hwords, hwithout⟩ := without_removeFirst hperm g
    refine ⟨k, (order p).take k, hk, hone, hthree, hlength, hwords, hwithout, ?_, ?_⟩
    · rw [← hlength, ← hwithout.length_inside, Nat.add_sub_cancel]
    · intro i hi j hj
      have hle := density_le_of_front hperm hsorted hwithout hi hj
      have hi' := (hinside i (hperm.mem_iff.1 (List.mem_of_mem_take hi))).2
      have hj' := (hinside j (mem_inside.2 (hwithout.holds_iff.1 hj).1)).2
      have ha := Array.getElem?_eq_getElem hi'
      have hb := Array.getElem?_eq_getElem hj'
      rw [density_eq ha, density_eq hb] at hle
      exact ⟨_, _, ha, hb, hle, (div_le_div_iff₀ (hweights _ (Array.getElem_mem hi'))
        (hweights _ (Array.getElem_mem hj'))).1 hle⟩

namespace Satchel

/-- Three packed items, the first worth most for its weight and the last worth least. -/
def laden : Packing ℚ where
  problem := ⟨#[⟨1, 3⟩, ⟨2, 2⟩, ⟨4, 1⟩], 7⟩
  packed := #[true, true, true]

end Satchel

open Satchel in
/-- From this generator the random removal empties the satchel, and the removal of the worst items
takes out one, which is worth no more for its weight than the two that stay. -/
theorem removals_take_what_they_announce_laden :
    laden.packed.size = laden.problem.items.size ∧
    (∀ item ∈ laden.problem.items, 0 < item.weight) ∧
    (laden.removeRandom ⟨0, 1⟩).1.inside.length = 0 ∧
    ∃ i, laden.Without [i] (laden.removeWorst ⟨0, 1⟩).1 ∧
      (laden.removeWorst ⟨0, 1⟩).1.inside.length = 2 ∧
      ∀ j, (laden.removeWorst ⟨0, 1⟩).1.holds j = true →
        ∃ a b, laden.problem.items[i]? = some a ∧ laden.problem.items[j]? = some b ∧
          a.value / a.weight ≤ b.value / b.weight := by
  have hsize : laden.packed.size = laden.problem.items.size := rfl
  have hweights : ∀ item ∈ laden.problem.items, 0 < item.weight := by
    simp [laden]
  have hthree : laden.inside.length = 3 := by decide
  obtain ⟨-, ⟨-, -, -, -, -, -, -, hrandom⟩, hworst, -, hperm, hsorted⟩ :=
    removals_take_what_they_announce hsize hweights ⟨0, 1⟩
  obtain ⟨k, removed, hk, -, -, hlength, -, hwithout, hleft, hbelow⟩ := hworst _ hperm hsorted
  have hone : k = 1 := by
    have hdrawn : (Draw.integer 1 3 ⟨0, 1⟩).1 = 1 := by decide
    exact Int.ofNat_inj.1 ((congrArg Prod.fst hk).symm.trans hdrawn)
  rw [hone, hthree] at hlength hleft
  obtain ⟨i, rfl⟩ := List.length_eq_one_iff.1 hlength
  refine ⟨hsize, hweights, ?_, i, hwithout, hleft, fun j hj => ?_⟩
  · rw [hrandom, Nat.sub_eq_zero_iff_le, hthree]
    decide
  · obtain ⟨a, b, ha, hb, hle, -⟩ := hbelow i (List.mem_singleton_self i) j hj
    exact ⟨a, b, ha, hb, hle⟩

end Knapsack

end LargeNeighbourhood
