/-
# Moving average threshold

The criterion keeps the objectives of the last candidates, the present one among them, and takes
a candidate that is at most

    least + eta * (mean - least)

of this window: with `eta` zero it has to be the least, with `eta` one to be no worse than the
mean.
-/
import LargeNeighbourhood.Fault
import LargeNeighbourhood.Scalar

namespace LargeNeighbourhood

/-- A moving average criterion. -/
structure MovingAverage (K : Type) where
  eta : K
  /-- How many candidates the window holds. -/
  gamma : Nat
  /-- Objectives of the last candidates, oldest first. -/
  history : List K := []

namespace MovingAverage

variable {K : Type} [Scalar K]

/-- A new criterion; `eta` lies in `[0, 1]` and the window holds at least one candidate. -/
def make (eta : K) (gamma : Int) : Except (Fault K) (MovingAverage K) := do
  if !Scalar.within 0 1 eta then throw .etaOutside
  if gamma ≤ 0 then throw .emptyWindow
  return { eta, gamma := gamma.toNat }

/-- Adds a candidate to the window, and drops the oldest if there are too many. -/
def record (c : MovingAverage K) (candidate : K) : MovingAverage K :=
  let history := c.history ++ [candidate]
  { c with history := if c.gamma < history.length then history.tail else history }

/-- The threshold of a window that starts with `x`. -/
def threshold (c : MovingAverage K) (x : K) (rest : List K) : K :=
  let least := Scalar.least x rest
  let mean := Scalar.sum (x :: rest) / ((rest.length + 1 : Nat) : K)
  least + c.eta * (mean - least)

/-- One decision. -/
def accept (c : MovingAverage K) (candidate : K) : Bool × MovingAverage K :=
  let c := c.record candidate
  match c.history with
  | [] => (true, c)
  | x :: rest => (decide (candidate ≤ c.threshold x rest), c)

end MovingAverage

end LargeNeighbourhood
