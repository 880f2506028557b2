/-
# The legal pairs of a usable coupling

A scheme that numbers the legal pairs keeps them in a table, in their order.  That the table is
that of its coupling is part of the type, and since the coupling is usable the table is not empty:
a uniform pair can always be drawn.

`numbers` is the way back, from a pair to its number without a search: one cell for every pair of the
matrix, legal or not, where minus one marks the cell of a pair that has no number.
-/
import LargeNeighbourhood.Coupling
import LargeNeighbourhood.Random.Draw

namespace LargeNeighbourhood

/-- A usable coupling and its legal pairs, row by row. -/
structure PairTable where
  coupling : Coupling
  usable : coupling.Usable
  pairs : Array (Nat × Nat)
  pairs_eq : pairs = coupling.legalPairs.toArray

namespace PairTable

/-- The table of a coupling. -/
def ofCoupling (coupling : Coupling) (usable : coupling.Usable) : PairTable :=
  ⟨coupling, usable, _, rfl⟩

/-- The number of legal pairs. -/
def size (t : PairTable) : Nat := t.pairs.size

theorem size_pos (t : PairTable) : 0 < t.size := by
  rw [size, t.pairs_eq, List.size_toArray]
  exact List.length_pos_iff.2 (Coupling.legalPairs_ne_nil t.usable)

/-- The pair with a number. -/
def pair? (t : PairTable) (i : Nat) : Option (Nat × Nat) := t.pairs[i]?

/-- The cell of a pair where all pairs of the matrix have one, row by row. -/
def cell (t : PairTable) (pair : Nat × Nat) : Nat := pair.1 * t.coupling.numRepair + pair.2

/-- Numbers some pairs from `i` on, each in its cell. -/
def enter (t : PairTable) : Nat → List (Nat × Nat) → Array Int → Array Int
  | _, [], cells => cells
  | i, pair :: rest, cells => t.enter (i + 1) rest (cells.setIfInBounds (t.cell pair) i)

/-- The numbers of all pairs of the matrix, row by row; minus one for a pair that is not legal. -/
def numbers (t : PairTable) : Array Int :=
  t.enter 0 t.pairs.toList (Array.replicate (t.coupling.numDestroy * t.coupling.numRepair) (-1))

/-- One legal pair, all equally likely. -/
def draw (t : PairTable) : Draw (Nat × Nat) := do
  let i ← Draw.below t.size t.size_pos
  have h : i.val < t.pairs.size := i.isLt
  return t.pairs[i.val]

end PairTable

end LargeNeighbourhood
