/-
# The record of a run

What a run leaves behind for its reader: the objective after every iteration, how long each
iteration took, and for every operator how often each outcome followed it.  The search writes
here and never reads.

Times are whole nanoseconds since some origin; a stamp closes the stretch that began with the
stamp before it, so the stretches add up to the last stamp less the first.
-/
import LargeNeighbourhood.Fault
import LargeNeighbourhood.Outcome
import LargeNeighbourhood.Scalar

namespace LargeNeighbourhood

/-! ## 1. Counters by name -/

/-- Outcome counters by name, the names ascending. -/
abbrev Tally := List (String × OutcomeCounts)

namespace Tally

/-- Counts an outcome for a name, which enters the tally at its place if it is new. -/
def record (name : String) (o : Outcome) : Tally → Tally
  | [] => [(name, ({} : OutcomeCounts).bump o)]
  | (n, c) :: rest =>
    if name = n then (n, c.bump o) :: rest
    else if name < n then (name, ({} : OutcomeCounts).bump o) :: (n, c) :: rest
    else (n, c) :: record name o rest

/-- The counters of a name. -/
def find? (t : Tally) (name : String) : Option OutcomeCounts := t.lookup name

end Tally

/-! ## 2. Statistics -/

/-- The record of one run. -/
structure Statistics (K : Type) where
  objectives : Array K := #[]
  /-- Nanoseconds from each stamp to the next. -/
  stretches : Array Int := #[]
  start? : Option Int := none
  last? : Option Int := none
  destroyCounts : Tally := []
  repairCounts : Tally := []

namespace Statistics

variable {K : Type}

/-- How many iterations were timed. -/
def iterations (s : Statistics K) : Nat := s.stretches.size

/-- Adds an objective. -/
def recordObjective (s : Statistics K) (x : K) : Statistics K :=
  { s with objectives := s.objectives.push x }

/-- Adds a time stamp: the first starts the clock, each later one closes a stretch. -/
def recordTime (s : Statistics K) (now : Int) : Statistics K :=
  match s.last? with
  | none => { s with start? := some now, last? := some now }
  | some before => { s with stretches := s.stretches.push (now - before), last? := some now }

/-- Counts an outcome of a destroy operator. -/
def recordDestroy (s : Statistics K) (name : String) (o : Outcome) : Statistics K :=
  { s with destroyCounts := Tally.record name o s.destroyCounts }

/-- Counts an outcome of a repair operator. -/
def recordRepair (s : Statistics K) (name : String) (o : Outcome) : Statistics K :=
  { s with repairCounts := Tally.record name o s.repairCounts }

/-- The counters of a destroy operator that was counted. -/
def destroyCountsOf (s : Statistics K) (name : String) : Except (Fault K) OutcomeCounts :=
  match Tally.find? s.destroyCounts name with
  | some c => .ok c
  | none => .error (.noStatistics "destroy" name)

/-- The counters of a repair operator that was counted. -/
def repairCountsOf (s : Statistics K) (name : String) : Except (Fault K) OutcomeCounts :=
  match Tally.find? s.repairCounts name with
  | some c => .ok c
  | none => .error (.noStatistics "repair" name)

/-- The nanoseconds of all stretches together. -/
def elapsed (s : Statistics K) : Int := s.stretches.foldl (· + ·) 0

/-! ## 3. Times in seconds -/

variable [Scalar K]

/-- Nanoseconds as seconds. -/
def seconds (nanoseconds : Int) : K := Scalar.ofInt nanoseconds / ((1000000000 : Nat) : K)

/-- The stretches in seconds. -/
def runtimes (s : Statistics K) : List K := s.stretches.toList.map seconds

/-- The sum of the stretches in seconds. -/
def totalRuntime (s : Statistics K) : K := Scalar.sum s.runtimes

end Statistics

end LargeNeighbourhood
