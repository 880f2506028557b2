/-
# Great deluges

A candidate is taken if it lies below a water level.  The level is set by the first decision, at
`alpha` times the best objective.

The linear deluge then moves the level towards the candidate, by the fraction `beta` of their
distance.  The non-linear one also takes a candidate that is better than the current solution.
Seen from the level, the candidate's depth is its distance relative to the level:

    depth below beta    the level moves by gamma times the distance,
    otherwise           the level becomes  level * exp (-delta * best) + best.

A level of zero has no depth, so the non-linear deluge refuses to begin at a best objective of
zero.
-/
import LargeNeighbourhood.Fault
import LargeNeighbourhood.Scalar

namespace LargeNeighbourhood

/-- A great deluge. -/
structure GreatDeluge (K : Type) where
  alpha : K
  beta : K
  /-- The water level, once it was set. -/
  level? : Option K := none

namespace GreatDeluge

variable {K : Type} [Scalar K]

/-- A new deluge. -/
def make (alpha beta : K) : Except (Fault K) (GreatDeluge K) :=
  if alpha ≤ 1 ∨ ¬(0 < beta ∧ beta < 1) then .error .delugeParameters
  else .ok { alpha, beta }

/-- The level a decision sees. -/
def level (c : GreatDeluge K) (best : K) : K := c.level?.getD (c.alpha * best)

/-- One decision. -/
def accept (c : GreatDeluge K) (best candidate : K) : Bool × GreatDeluge K :=
  let level := c.level best
  let depth := level - candidate
  (decide (0 < depth), { c with level? := some (level - c.beta * depth) })

end GreatDeluge

/-- A non-linear great deluge. -/
structure NonLinearGreatDeluge (K : Type) where
  deluge : GreatDeluge K
  gamma : K
  delta : K

namespace NonLinearGreatDeluge

variable {K : Type} [Scalar K]

/-- A new deluge. -/
def make (alpha beta gamma delta : K) : Except (Fault K) (NonLinearGreatDeluge K) := do
  let deluge ← GreatDeluge.make alpha beta
  if gamma ≤ 0 ∨ delta ≤ 0 then throw .delugeRates
  return { deluge, gamma, delta }

/-- The level a decision sees; there is none at first if the best objective is zero. -/
def level (c : NonLinearGreatDeluge K) (best : K) : Except (Fault K) K :=
  match c.deluge.level? with
  | some level => .ok level
  | none => if Scalar.same best 0 then .error .zeroInitialValue else .ok (c.deluge.alpha * best)

/-- The level after a decision. -/
def nextLevel [Elementary K] (c : NonLinearGreatDeluge K) (level best candidate : K) : K :=
  if (level - candidate) / level < c.deluge.beta then
    level + c.gamma * Scalar.magnitude (candidate - level)
  else level * Elementary.exp (-c.delta * best) + best

/-- One decision. -/
def accept [Elementary K] (c : NonLinearGreatDeluge K) (best current candidate : K) :
    Except (Fault K) (Bool × NonLinearGreatDeluge K) := do
  let level ← c.level best
  let deluge := { c.deluge with level? := some (c.nextLevel level best candidate) }
  return (decide (candidate < level) || decide (candidate < current), { c with deluge })

end NonLinearGreatDeluge

end LargeNeighbourhood
