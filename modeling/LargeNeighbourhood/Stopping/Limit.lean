/-
# Limits

The three simple stopping criteria.  An iteration limit is not reached the first `limit` times it
is asked, and reached from then on.  A stagnation limit is reached when the best objective has not
become smaller for `limit` questions in a row; the first question sets the objective to beat.  A
time limit is reached once more than its seconds have passed since the first question.
-/
import LargeNeighbourhood.Statistics

namespace LargeNeighbourhood

/-! ## 1. Iterations -/

/-- A limit on the number of iterations. -/
structure IterationLimit where
  limit : Nat
  /-- Questions so far. -/
  asked : Nat := 0
  deriving DecidableEq, Repr

namespace IterationLimit

/-- A new limit. -/
def make {K : Type} (limit : Int) : Except (Fault K) IterationLimit :=
  if limit < 0 then .error .negativeIterations else .ok { limit := limit.toNat }

/-- One question. -/
def ask (c : IterationLimit) : Bool × IterationLimit :=
  (decide (c.limit < c.asked + 1), { c with asked := c.asked + 1 })

end IterationLimit

/-! ## 2. Stagnation -/

/-- A limit on the number of questions without a better best objective. -/
structure StagnationLimit (K : Type) where
  limit : Nat
  /-- Questions since the last improvement. -/
  counter : Nat := 0
  /-- The least best objective so far. -/
  target? : Option K := none
  deriving Repr

namespace StagnationLimit

variable {K : Type}

/-- A new limit. -/
def make (limit : Int) : Except (Fault K) (StagnationLimit K) :=
  if limit < 0 then .error .negativeIterations else .ok { limit := limit.toNat }

variable [LT K] [DecidableLT K]

/-- The objective improves on everything seen before. -/
def improves (c : StagnationLimit K) (best : K) : Bool :=
  match c.target? with
  | none => true
  | some target => decide (best < target)

/-- The limit after it saw an objective. -/
def observe (c : StagnationLimit K) (best : K) : StagnationLimit K :=
  if c.improves best then { c with counter := 0, target? := some best }
  else { c with counter := c.counter + 1 }

/-- One question. -/
def ask (c : StagnationLimit K) (best : K) : Bool × StagnationLimit K :=
  let c := c.observe best
  (decide (c.limit ≤ c.counter), c)

end StagnationLimit

/-! ## 3. Time -/

/-- A limit on the seconds since the first question. -/
structure TimeLimit (K : Type) where
  limit : K
  /-- When the first question was asked. -/
  start? : Option Int := none
  deriving Repr

namespace TimeLimit

variable {K : Type} [Scalar K]

/-- A new limit. -/
def make (limit : K) : Except (Fault K) (TimeLimit K) :=
  if limit < 0 then .error .negativeRuntime else .ok { limit }

/-- One question. -/
def ask (c : TimeLimit K) (now : Int) : Bool × TimeLimit K :=
  let start := c.start?.getD now
  (decide (c.limit < Statistics.seconds (now - start)), { c with start? := some start })

end TimeLimit

/-! ## 4. Any of them -/

/-- A simple stopping criterion. -/
inductive Limit (K : Type) where
  | iterations (limit : IterationLimit)
  | stagnation (limit : StagnationLimit K)
  | runtime (limit : TimeLimit K)
  deriving Repr

/-- One question to a limit, at a time and with a best objective. -/
def Limit.ask {K : Type} [Scalar K] (now : Int) (best : K) : Limit K → Bool × Limit K
  | iterations c => let (stop, c) := c.ask; (stop, iterations c)
  | stagnation c => let (stop, c) := c.ask best; (stop, stagnation c)
  | runtime c => let (stop, c) := c.ask now; (stop, runtime c)

end LargeNeighbourhood
