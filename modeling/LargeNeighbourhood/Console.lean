/-
# What a search says

The messages of a search as data.  A component adds the lines it has to say to the log of the
action it runs in; which of the two channels a line belongs to is part of the line, and its text
is made in `Console.Text`.
-/
import LargeNeighbourhood.Acceptance.Schedule
import LargeNeighbourhood.Outcome

namespace LargeNeighbourhood

/-- Where a line is shown. -/
inductive Channel where
  | progress
  | warning
  deriving DecidableEq, Repr

/-- One message. -/
inductive Line (K : Type) where
  /-- A name was registered again. -/
  | operatorReplaced (role name : String)
  /-- The callback for new best solutions was set again. -/
  | onBestReplaced
  /-- A segment of the segmented wheel ended with this selection. -/
  | segmentEnd (iteration : Nat)
  /-- One decision of an annealing criterion. -/
  | annealed (temperature rate current candidate probability : K) (accepted : Bool)
  /-- The schedule that was fitted to the first objective. -/
  | annealingFitted (start step : K) (method : Schedule)
  /-- The run begins. -/
  | started (objective : K)
  /-- A candidate became the best solution. -/
  | newBest (objective : K)
  /-- An iteration is over. -/
  | iterated (iteration : Nat) (destroy repair : String) (outcome : Outcome) (current best : K)
  /-- The run is over; the time it took is in nanoseconds. -/
  | finished (iterations : Nat) (elapsed : Int) (best : K)
  deriving Repr

/-- Replaced registrations are warnings, all else is progress. -/
def Line.channel {K : Type} : Line K → Channel
  | .operatorReplaced .. | .onBestReplaced => .warning
  | _ => .progress

end LargeNeighbourhood
