/-
# The acceptance criteria of the library

The criteria as one type.  A decision sees the objectives of the best, the current and the
candidate solution, changes the criterion's own state, and may draw.
-/
import LargeNeighbourhood.Acceptance.GreatDeluge
import LargeNeighbourhood.Acceptance.HillClimbing
import LargeNeighbourhood.Acceptance.LateAcceptance
import LargeNeighbourhood.Acceptance.MovingAverage
import LargeNeighbourhood.Acceptance.RandomAccept
import LargeNeighbourhood.Acceptance.RecordToRecord
import LargeNeighbourhood.Acceptance.SimulatedAnnealing
import LargeNeighbourhood.Acceptance.Acceptor

namespace LargeNeighbourhood

/-- A criterion of the library. -/
inductive Criterion (K : Type) where
  | hillClimbing
  | randomWalk
  | lateAcceptance (criterion : LateAcceptance K)
  | simulatedAnnealing (criterion : SimulatedAnnealing K)
  | recordToRecord (criterion : RecordToRecord K)
  | thresholdAcceptance (criterion : RecordToRecord K)
  | randomAccept (criterion : RandomAccept K)
  | greatDeluge (criterion : GreatDeluge K)
  | nonLinearGreatDeluge (criterion : NonLinearGreatDeluge K)
  | movingAverage (criterion : MovingAverage K)

namespace Criterion

variable {K : Type} [Scalar K] [Elementary K]

/-- Keeps the state that a decision ended in, and hands on its answer. -/
def settle {α : Type} (wrap : α → Criterion K) (decision : Bool × α) :
    Act K (Criterion K) Bool := do
  Act.become (wrap decision.2)
  return decision.1

/-- Whether the candidate replaces the current solution. -/
def accept (best current candidate : K) : Act K (Criterion K) Bool := do
  match ← Act.own with
  | hillClimbing => return HillClimbing.accepts current candidate
  | randomWalk => return RandomWalk.accepts
  | lateAcceptance c => settle lateAcceptance (c.accept current candidate)
  | simulatedAnnealing c =>
    (SimulatedAnnealing.accept current candidate).on (fun _ => c) fun c _ => simulatedAnnealing c
  | recordToRecord c => settle recordToRecord (c.accept (candidate - best))
  | thresholdAcceptance c => settle thresholdAcceptance (c.accept (candidate - current))
  | randomAccept c => settle randomAccept (← Act.draw (c.accept current candidate))
  | greatDeluge c => settle greatDeluge (c.accept best candidate)
  | nonLinearGreatDeluge c =>
    settle nonLinearGreatDeluge (← Act.ofExcept (c.accept best current candidate))
  | movingAverage c => settle movingAverage (c.accept candidate)

/-- The criteria of the library as a search sees them. -/
def acceptor {X : Type} [Solution K X] : Acceptor K X (Criterion K) where
  accept := fun best current candidate =>
    accept (objective best) (objective current) (objective candidate)

end Criterion

end LargeNeighbourhood
