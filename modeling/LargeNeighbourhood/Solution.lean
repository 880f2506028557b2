/-
# Solutions

All that a search needs of a solution is its objective, which it makes small.  Some solutions can
also describe themselves by a list of numbers, their context, for schemes that learn from it.
-/
import LargeNeighbourhood.Fault

namespace LargeNeighbourhood

/-- A type of solutions with objectives in `K`. -/
class Solution (K : outParam Type) (X : Type) where
  objective : X → K
  /-- The context, for the solutions that offer one. -/
  context? : X → Option (List K) := fun _ => none

namespace Solution

variable {K X : Type} [Solution K X]

/-- The context of a solution that must offer one. -/
def context (x : X) : Except (Fault K) (List K) :=
  match context? x with
  | some features => .ok features
  | none => .error .noContext

end Solution

/-- The objective of a solution. -/
abbrev objective {K X : Type} [Solution K X] (x : X) : K := Solution.objective x

end LargeNeighbourhood
