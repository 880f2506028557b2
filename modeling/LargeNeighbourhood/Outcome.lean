/-
# What became of a candidate

Four outcomes, from most to least desirable.  Their position in this order is the index into a
list of scores and into a row of counters.
-/

namespace LargeNeighbourhood

/-- The classification of one candidate. -/
inductive Outcome where
  /-- A new best solution. -/
  | best
  /-- Accepted, and strictly better than the current solution. -/
  | better
  /-- Accepted, and not better. -/
  | accept
  /-- Not accepted. -/
  | reject
  deriving DecidableEq, Repr, Inhabited

namespace Outcome

/-- All outcomes, most desirable first. -/
def all : List Outcome := [best, better, accept, reject]

/-- The position in `all`. -/
def index : Outcome → Nat
  | best => 0
  | better => 1
  | accept => 2
  | reject => 3

/-- The word for an outcome. -/
def name : Outcome → String
  | best => "best"
  | better => "better"
  | accept => "accept"
  | reject => "reject"

/-- The outcome at a position, if there is one. -/
def ofIndex? : Int → Option Outcome
  | 0 => some best
  | 1 => some better
  | 2 => some accept
  | 3 => some reject
  | _ => none

/-- The word for an outcome code; a code outside the four is unknown. -/
def nameOfCode (code : Int) : String :=
  match ofIndex? code with
  | some o => o.name
  | none => "unknown"

/-- The position a code stands for, read as an unsigned 64-bit word. -/
def indexOfCode (code : Int) : Nat := (code % 18446744073709551616).toNat

theorem ofIndex?_index (o : Outcome) : ofIndex? o.index = some o := by cases o <;> rfl

end Outcome

/-- How often each outcome was seen. -/
structure OutcomeCounts where
  best : Nat := 0
  better : Nat := 0
  accept : Nat := 0
  reject : Nat := 0
  deriving DecidableEq, Repr, Inhabited

namespace OutcomeCounts

/-- The counter of one outcome. -/
def get (c : OutcomeCounts) : Outcome → Nat
  | .best => c.best
  | .better => c.better
  | .accept => c.accept
  | .reject => c.reject

/-- Counts one more. -/
def bump (c : OutcomeCounts) : Outcome → OutcomeCounts
  | .best => { c with best := c.best + 1 }
  | .better => { c with better := c.better + 1 }
  | .accept => { c with accept := c.accept + 1 }
  | .reject => { c with reject := c.reject + 1 }

/-- The four counters in the order of `Outcome.all`. -/
def toList (c : OutcomeCounts) : List Nat := Outcome.all.map c.get

theorem get_bump (c : OutcomeCounts) (o p : Outcome) :
    (c.bump o).get p = c.get p + if o = p then 1 else 0 := by
  cases o <;> cases p <;> rfl

end OutcomeCounts

end LargeNeighbourhood
