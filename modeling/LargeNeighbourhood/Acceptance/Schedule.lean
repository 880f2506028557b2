/-
# Decay schedules

A temperature, a threshold or a probability moves by one fixed step after every decision: a
linear schedule subtracts the step, an exponential one multiplies by it.  `Schedule.next` puts
the floor under the result.
-/
import LargeNeighbourhood.Fault
import LargeNeighbourhood.Scalar

namespace LargeNeighbourhood

/-- How a decaying parameter takes its step. -/
inductive Schedule where
  | linear
  | exponential
  deriving DecidableEq, Repr, Inhabited

namespace Schedule

/-- The word for a schedule. -/
def name : Schedule → String
  | linear => "linear"
  | exponential => "exponential"

/-- The schedule with a number: zero is linear, one is exponential. -/
def ofCode? : Int → Option Schedule
  | 0 => some linear
  | 1 => some exponential
  | _ => none

/-- The word for a number; a number of no schedule is unknown. -/
def nameOfCode (code : Int) : String :=
  match ofCode? code with
  | some m => m.name
  | none => "unknown"

/-- The capital letters of the basic alphabet become small, and nothing else changes. -/
def lowered (text : String) : String := text.map Char.toLower

variable {K : Type}

/-- Reads a schedule's word in any mixture of capitals. -/
def parse (text : String) : Except (Fault K) Schedule :=
  if lowered text = "linear" then .ok linear
  else if lowered text = "exponential" then .ok exponential
  else .error (.unknownMethodName text)

variable [Scalar K]

/-- One step, without a floor. -/
def advance (m : Schedule) (current step : K) : K :=
  match m with
  | linear => current - step
  | exponential => current * step

/-- One step of the schedule with a number. -/
def advanceByCode (code : Int) (current step : K) : Except (Fault K) K :=
  match ofCode? code with
  | some m => .ok (m.advance current step)
  | none => .error .unknownMethod

/-- One step that does not go below the floor. -/
def next (m : Schedule) (floor current step : K) : K :=
  Scalar.upper floor (m.advance current step)

/-- An exponential schedule shrinks: its step must lie in `(0, 1]`.  A linear one takes any. -/
def refusesStep (m : Schedule) (step : K) : Bool :=
  decide (m = exponential) && (decide (step ≤ 0) || decide (1 < step))

end Schedule

end LargeNeighbourhood
