/-
# Random acceptance

A candidate that is better than the current solution is taken without a draw, any other with a
probability that takes a step of its schedule after every decision.
-/
import LargeNeighbourhood.Acceptance.Schedule
import LargeNeighbourhood.Random.Draw

namespace LargeNeighbourhood

/-- A criterion with a falling probability. -/
structure RandomAccept (K : Type) where
  start : K
  finish : K
  step : K
  method : Schedule
  probability : K

namespace RandomAccept

variable {K : Type} [Scalar K]

/-- A new criterion, its probability at the start. -/
def make (start finish step : K) (method : Schedule) : Except (Fault K) (RandomAccept K) := do
  if ¬(0 ≤ finish ∧ finish ≤ start ∧ start ≤ 1) then throw .probabilitiesReversed
  if step < 0 then throw .negativeStep
  if method.refusesStep step then throw .exponentialStep
  return { start, finish, step, method, probability := start }

/-- The criterion after a decision. -/
def advance (c : RandomAccept K) : RandomAccept K :=
  { c with probability := c.method.next c.finish c.probability c.step }

/-- One decision. -/
def accept (c : RandomAccept K) (current candidate : K) : Draw (Bool × RandomAccept K) := do
  if candidate < current then return (true, c.advance)
  else
    let u ← Draw.uniform
    return (decide (u < c.probability), c.advance)

end RandomAccept

end LargeNeighbourhood
