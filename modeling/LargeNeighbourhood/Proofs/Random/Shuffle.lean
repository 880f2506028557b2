/-
# Shuffles rearrange

A shuffle only ever exchanges two entries, so whatever indices are drawn its result is a
rearrangement of what it began with.  The front of a rearrangement repeats nothing that the whole
does not.
-/
import LargeNeighbourhood.Random.Shuffle

namespace LargeNeighbourhood

namespace Draw

variable {α : Type}

theorem swapIfInBounds_perm (xs : Array α) (i j : Nat) : (xs.swapIfInBounds i j).Perm xs := by
  rw [Array.swapIfInBounds_def]
  split
  · split
    · exact Array.swap_perm _ _
    · exact .rfl
  · exact .rfl

theorem arrange_perm (n : Nat) (js : List Nat) (xs : Array α) : (arrange n js xs).Perm xs := by
  induction n generalizing js xs with
  | zero => exact .rfl
  | succ n ih =>
    cases js with
    | nil => exact .rfl
    | cons j js => exact (ih js _).trans (swapIfInBounds_perm xs (n + 1) j)

/-- **A shuffle is a rearrangement**, from wherever the generator stands. -/
theorem shuffle_perm (n : Nat) (g : Generator) :
    (shuffle n g).1.toList.Perm (List.range n) := by
  have hperm : (shuffle n g).1.Perm (Array.range n) := by
    rw [shuffle, shuffleFrom_eq]
    exact arrange_perm _ _ _
  rw [← Array.toList_range]
  exact hperm.toList

/-- The front of a shuffle holds different numbers below `n`, as many as were asked for or all. -/
theorem front_shuffle (k n : Nat) (g : Generator) :
    ((shuffle n g).1.take k).size = min k n ∧ ((shuffle n g).1.take k).toList.Nodup ∧
      ∀ j ∈ ((shuffle n g).1.take k).toList, j < n := by
  have hperm := shuffle_perm n g
  have hfront : ((shuffle n g).1.take k).toList = (shuffle n g).1.toList.take k := by simp
  rw [← Array.length_toList, hfront]
  refine ⟨?_, ?_, fun j hj => ?_⟩
  · rw [List.length_take, hperm.length_eq, List.length_range]
  · exact (hperm.nodup_iff.2 List.nodup_range).sublist (List.take_sublist _ _)
  · exact List.mem_range.1 (hperm.mem_iff.1 (List.mem_of_mem_take hj))

end Draw

end LargeNeighbourhood
