/-
# Criteria without a state

Hill climbing takes a candidate that is no worse than the current solution.  A random walk takes
every candidate.
-/

namespace LargeNeighbourhood

variable {K : Type}

/-- No worse than the current solution. -/
def HillClimbing.accepts [LE K] [DecidableLE K] (current candidate : K) : Bool :=
  decide (candidate ≤ current)

/-- Anything. -/
def RandomWalk.accepts : Bool := true

end LargeNeighbourhood
