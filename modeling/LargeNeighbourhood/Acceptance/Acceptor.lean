/-
# What a search asks of an acceptance criterion

A criterion decides once in every iteration whether the candidate becomes the current solution.
-/
import LargeNeighbourhood.Act
import LargeNeighbourhood.Solution

namespace LargeNeighbourhood

/-- An acceptance criterion with states in `α` for solutions in `X`. -/
structure Acceptor (K X α : Type) where
  accept : (best current candidate : X) → Act K α Bool

end LargeNeighbourhood
