/-
# Late acceptance

A candidate is compared not with the current solution but with the one that was current
`lookback` decisions ago.  The history holds the references of the last `lookback` decisions,
oldest first; with a lookback of zero it stays empty, and a candidate has to be better than the
current solution.

A greedy criterion also takes a candidate that is better than the current solution.  One that
keeps the better history records the lower of the current objective and the oldest entry in place
of the current objective.
-/
import LargeNeighbourhood.Fault
import LargeNeighbourhood.Scalar

namespace LargeNeighbourhood

/-- A late acceptance criterion. -/
structure LateAcceptance (K : Type) where
  lookback : Nat
  greedy : Bool
  betterHistory : Bool
  /-- References of the last decisions, oldest first. -/
  history : List K := []

namespace LateAcceptance

variable {K : Type}

/-- A new criterion. -/
def make (lookback : Int) (greedy betterHistory : Bool) :
    Except (Fault K) (LateAcceptance K) :=
  if lookback < 0 then .error .negativeLookback
  else .ok { lookback := lookback.toNat, greedy, betterHistory }

/-- Adds a reference, and drops the oldest if there are too many. -/
def record (c : LateAcceptance K) (x : K) : LateAcceptance K :=
  let history := c.history ++ [x]
  { c with history := if c.lookback < history.length then history.tail else history }

variable [LT K] [DecidableLT K]

/-- One decision. -/
def accept (c : LateAcceptance K) (current candidate : K) : Bool × LateAcceptance K :=
  match c.history with
  | [] => (decide (candidate < current), c.record current)
  | oldest :: _ =>
    (decide (candidate < oldest) || (c.greedy && decide (candidate < current)),
      c.record (if c.betterHistory then Scalar.lower current oldest else current))

end LateAcceptance

end LargeNeighbourhood
