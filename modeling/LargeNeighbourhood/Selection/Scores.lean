/-
# Scores and running means

What an outcome is worth to a scheme, and the two ways in which a scheme keeps the mean of what an
operator pair was worth so far.
-/
import LargeNeighbourhood.Fault
import LargeNeighbourhood.Outcome
import LargeNeighbourhood.Scalar

namespace LargeNeighbourhood

/-! ## 1. Scores -/

/-- One score for each outcome.  Scores beyond the fourth are kept and never used. -/
structure Scores (K : Type) where
  best : K
  better : K
  accept : K
  reject : K
  surplus : List K := []

namespace Scores

variable {K : Type}

/-- The score of an outcome. -/
def of (s : Scores K) : Outcome → K
  | .best => s.best
  | .better => s.better
  | .accept => s.accept
  | .reject => s.reject

/-- All scores in order. -/
def toList (s : Scores K) : List K := s.best :: s.better :: s.accept :: s.reject :: s.surplus

/-- Reads at least four scores, none of them negative. -/
def ofList [Scalar K] (xs : List K) : Except (Fault K) (Scores K) :=
  match xs with
  | best :: better :: accept :: reject :: surplus =>
    if xs.any fun x => decide (x < 0) then .error .negativeScore
    else .ok { best, better, accept, reject, surplus }
  | _ => .error (.tooFewScores xs.length)

end Scores

/-! ## 2. Running means -/

/-- A mean and the number of values it is the mean of. -/
structure Estimate (K : Type) where
  mean : K
  count : Nat := 0

namespace Estimate

variable {K : Type} [Scalar K]

/-- Takes one more value in by way of the sum. -/
def absorb (e : Estimate K) (x : K) : Estimate K :=
  let n : K := (e.count : K)
  { mean := (n * e.mean + x) / (n + 1), count := e.count + 1 }

/-- Takes one more value in by moving towards it. -/
def nudge (e : Estimate K) (x : K) : Estimate K :=
  let count := e.count + 1
  { mean := e.mean + (x - e.mean) / (count : K), count }

end Estimate

end LargeNeighbourhood
