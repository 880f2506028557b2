/-
# What a search asks of a stopping criterion

Before every iteration a search asks whether it shall stop, and tells the time in nanoseconds
since some origin and the best and the current solution.
-/
import LargeNeighbourhood.Act
import LargeNeighbourhood.Solution

namespace LargeNeighbourhood

/-- A stopping criterion with states in `τ` for solutions in `X`. -/
structure Stopper (K X τ : Type) where
  ask : (now : Int) → (best current : X) → Act K τ Bool

end LargeNeighbourhood
