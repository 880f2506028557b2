/-
# Simulated annealing

A candidate is taken with probability `exp ((current - candidate) / temperature)`; the
temperature then takes a step of its schedule and never falls below its end.  A fraction is drawn
for every decision, needed or not.

`fit` chooses the schedule from what is known before a run: a candidate that is worse by a given
fraction of the first objective shall be taken with a given probability, and the temperature shall
be one after a given number of decisions.
-/
import LargeNeighbourhood.Acceptance.Schedule
import LargeNeighbourhood.Act

namespace LargeNeighbourhood

/-- An annealing criterion. -/
structure SimulatedAnnealing (K : Type) where
  start : K
  finish : K
  step : K
  method : Schedule
  verbose : Bool
  temperature : K
  /-- The probability of the last decision, at most one. -/
  probability : K
  accepted : Nat := 0
  rejected : Nat := 0

namespace SimulatedAnnealing

variable {K : Type} [Scalar K]

/-! ## 1. Making one -/

/-- A new criterion, its temperature at the start. -/
def make (start finish step : K) (method : Schedule) (verbose : Bool) :
    Except (Fault K) (SimulatedAnnealing K) := do
  if start ≤ 0 ∨ finish ≤ 0 ∨ step < 0 then throw .temperaturesNotPositive
  if start < finish then throw .temperaturesReversed
  if method.refusesStep step then throw .exponentialStep
  return { start, finish, step, method, verbose, temperature := start, probability := 0 }

/-- The temperature at which a candidate worse by the fraction `worse` of the objective is taken
with the given probability. -/
def startFor [Elementary K] (initial worse probability : K) : K :=
  -worse * initial / Elementary.log probability

/-- The step that leads from `start` to one in `iterations` decisions. -/
def stepFor [Elementary K] (start : K) (iterations : Nat) : Schedule → K
  | .exponential => Elementary.pow (1 / start) (1 / (iterations : K))
  | .linear => (start - 1) / (iterations : K)

/-- A new criterion that is fitted to the first objective.  The schedule is said before it is
known to be sound. -/
def fit [Elementary K] {σ : Type} (initial worse probability : K) (iterations : Int)
    (method : Schedule) (verbose : Bool) : Act K σ (SimulatedAnnealing K) := do
  if !Scalar.within 0 1 worse then throw .worseOutside
  if ¬(0 < probability ∧ probability < 1) then throw .acceptProbabilityOutside
  if iterations ≤ 0 then throw .noIterations
  let start := startFor initial worse probability
  let step := stepFor start iterations.toNat method
  Act.sayIf verbose (.annealingFitted start step method)
  Act.ofExcept (make start 1 step method verbose)

/-! ## 2. Deciding -/

/-- The fraction of the decisions that took the candidate; zero before the first. -/
def rate (c : SimulatedAnnealing K) : K :=
  let total : K := ((c.accepted + c.rejected : Nat) : K)
  if 0 < total then (c.accepted : K) / total else 0

/-- The criterion after a decision. -/
def settle (c : SimulatedAnnealing K) (probability : K) (taken : Bool) : SimulatedAnnealing K :=
  { c with
    temperature := c.method.next c.finish c.temperature c.step
    probability := Scalar.lower probability 1
    accepted := if taken then c.accepted + 1 else c.accepted
    rejected := if taken then c.rejected else c.rejected + 1 }

/-- One decision. -/
def accept [Elementary K] (current candidate : K) : Act K (SimulatedAnnealing K) Bool := do
  let c ← Act.own
  let probability := Elementary.exp ((current - candidate) / c.temperature)
  let u ← Act.draw Draw.uniform
  let taken := decide (u ≤ probability)
  let next := c.settle probability taken
  Act.become next
  Act.sayIf c.verbose
    (.annealed c.temperature next.rate current candidate next.probability taken)
  return taken

end SimulatedAnnealing

end LargeNeighbourhood
