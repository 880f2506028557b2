/-
# Shuffles and samples without replacement

A shuffle goes through the positions from the last down to the second and exchanges the entry at
each with the entry at a random index that is at most the position.

The same in two steps: `swapIndices` draws the indices and nothing else, and `arrange` applies the
exchanges and draws nothing.  So the distribution of a shuffle is the distribution of its indices
carried through `arrange`; `shuffleFrom_eq` says so.

A sample of `k` is the front of a shuffle, whatever `k` is: all of it is always drawn.
-/
import LargeNeighbourhood.Random.Draw

namespace LargeNeighbourhood

namespace Draw

/-! ## 1. Shuffles -/

/-- Exchanges the entries at the positions from `n` down to one, each with one at or before it. -/
def shuffleFrom {α : Type} : Nat → Array α → Draw (Array α)
  | 0, xs => return xs
  | n + 1, xs => do
    let j ← below (n + 2) (Nat.succ_pos _)
    shuffleFrom n (xs.swapIfInBounds (n + 1) j.val)

/-- The numbers below `n` in random order. -/
def shuffle (n : Nat) : Draw (Array Nat) := shuffleFrom (n - 1) (Array.range n)

/-- At most `k` of the entries of an array, without replacement. -/
def subset {α : Type} (k : Nat) (xs : Array α) : Draw (List α) := do
  let order ← shuffle xs.size
  return (order.take k).toList.filterMap fun i => xs[i]?

/-! ## 2. Indices and exchanges apart -/

/-- One index for each position from `n` down to one, each at most its position. -/
def swapIndices : Nat → Draw (List Nat)
  | 0 => return []
  | n + 1 => do
    let j ← below (n + 2) (Nat.succ_pos _)
    let js ← swapIndices n
    return j.val :: js

/-- Exchanges the entry at position `n` with that at the first index, the one before it with that
at the second, and so on down to position one. -/
def arrange {α : Type} : Nat → List Nat → Array α → Array α
  | n + 1, j :: js, xs => arrange n js (xs.swapIfInBounds (n + 1) j)
  | _, _, xs => xs

theorem shuffleFrom_eq {α : Type} (n : Nat) (xs : Array α) :
    shuffleFrom n xs = (do return arrange n (← swapIndices n) xs) := by
  induction n generalizing xs with
  | zero => rfl
  | succ n ih => simp only [shuffleFrom, swapIndices, ih, bind_assoc, pure_bind, arrange]

end Draw

namespace Sampling

variable {K : Type}

/-- The numbers below `n` in random order; a negative `n` fails before any draw. -/
def permutation (n : Int) : Sampling K (Array Nat) :=
  if n < 0 then throw .negativeSize else Draw.shuffle n.toNat

/-- The first `k` of a permutation of the numbers below `n`, all of them if there are fewer.  A
negative size fails when the permutation is cut, after the draws. -/
def choice (n k : Int) : Sampling K (Array Nat) := do
  let k := min k n
  let order ← permutation n
  if k < 0 then throw .negativeSize
  return order.take k.toNat

end Sampling

end LargeNeighbourhood
