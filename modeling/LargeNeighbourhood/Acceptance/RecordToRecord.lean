/-
# Record-to-record travel and threshold acceptance

A candidate is taken if its gap to a reference is at most a threshold.  Record-to-record travel
measures the gap from the best solution, threshold acceptance from the current one; the rest is
the same.  The threshold takes a step of its schedule after every decision, and never goes below
its end.
-/
import LargeNeighbourhood.Acceptance.Schedule

namespace LargeNeighbourhood

/-- A criterion with a falling threshold. -/
structure RecordToRecord (K : Type) where
  start : K
  finish : K
  step : K
  method : Schedule
  threshold : K

namespace RecordToRecord

variable {K : Type} [Scalar K]

/-- A new criterion, its threshold at the start. -/
def make (start finish step : K) (method : Schedule) : Except (Fault K) (RecordToRecord K) := do
  if start < 0 ∨ finish < 0 ∨ step < 0 then throw .thresholdsNegative
  if start < finish then throw .thresholdsReversed
  if method.refusesStep step then throw .exponentialStep
  return { start, finish, step, method, threshold := start }

/-- One decision about a gap. -/
def accept (c : RecordToRecord K) (gap : K) : Bool × RecordToRecord K :=
  (decide (gap ≤ c.threshold),
    { c with threshold := c.method.next c.finish c.threshold c.step })

end RecordToRecord

end LargeNeighbourhood
