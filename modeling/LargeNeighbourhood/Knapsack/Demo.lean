/-
# A demonstration

A search on a random knapsack problem: two removals, two insertions, a roulette wheel, annealing
fitted to the greedy packing, and an iteration limit.  The demonstration is taken apart into what
is shown before the run, the run, and what is shown after it, so that it can be run on a real
clock as well as on a given one.
-/
import LargeNeighbourhood.Acceptance.Criterion
import LargeNeighbourhood.Decimal.Format
import LargeNeighbourhood.Knapsack.Operators
import LargeNeighbourhood.Scalar.Binary64
import LargeNeighbourhood.Search.Run
import LargeNeighbourhood.Selection.Scheme
import LargeNeighbourhood.Stopping.Limit
import LargeNeighbourhood.Stopping.Rule

namespace LargeNeighbourhood.Knapsack.Demo

/-! ## 1. The search -/

/-- The number of items. -/
def numItems : Nat := 50

/-- The number of iterations. -/
def numIterations : Nat := 5000

/-- The seed of the problem and of the search. -/
def seed : UInt64 := 42

/-- The problem. -/
def problem : Problem Float := ((Problem.random numItems).run (Generator.ofSeed seed)).1

/-- The search begins with nothing packed. -/
def initial : Packing Float := Packing.empty problem

/-- The parts of the search. -/
abbrev Parts :=
  LargeNeighbourhood.Parts (Packing Float) Unit (Scheme Float (EpsilonGreedy Float))
    (Criterion Float) (Stopping (Limit Float))

/-- The collaborators of the search. -/
def methods : Methods Float (Packing Float) (Scheme Float (EpsilonGreedy Float))
    (Criterion Float) (Stopping (Limit Float)) where
  selector := Scheme.selector EpsilonGreedy.policy
  acceptor := Criterion.acceptor
  stopper := Stopping.stopper Limit.ask

/-- An engine with the four operators. -/
def register : Act Float (Engine Float (Packing Float) Unit) Unit := do
  let _ ← Engine.addDestroy "random_removal" (some (operator Packing.removeRandom))
  let _ ← Engine.addDestroy "worst_removal" (some (operator Packing.removeWorst))
  let _ ← Engine.addRepair "greedy_insertion"
    (some (operator fun p => pure p.insertGreedy)) []
  let _ ← Engine.addRepair "random_insertion" (some (operator Packing.insertRandom)) []

/-- The engine after the registrations. -/
def engine : Engine Float (Packing Float) Unit :=
  (register.run (Engine.seeded seed false)).2.own

/-- The collaborators before the search. -/
def parts {σ : Type} : Act Float σ Parts := do
  let wheel ← Act.ofExcept (Roulette.make [25, 5, 1, 0] 0.8 2 2 none Roulette.standardFloor)
  let annealing ← SimulatedAnnealing.fit (-objective initial.insertGreedy) 0.05 0.5
    numIterations .exponential false
  let limit ← Act.ofExcept (IterationLimit.make numIterations)
  return {
    world := ()
    scheme := .roulette wheel
    criterion := .simulatedAnnealing annealing
    stop := { root := .limit (.iterations limit) } }

/-! ## 2. What is shown -/

/-- A name, filled up in front to eighteen characters. -/
def column (name : String) : String :=
  String.ofList (List.replicate (18 - name.length) ' ') ++ name

/-- One line for each operator of a tally. -/
def table (tally : Tally) : String :=
  String.join (tally.map fun (name, counts) =>
    "  " ++ column name ++ ": " ++ String.intercalate " / " (counts.toList.map toString) ++ "\n")

/-- What is shown before the run. -/
def opening : String :=
  "ALNS Knapsack Example\n=====================\n\nInstance:\n"
    ++ s!"  Items: {numItems}\n"
    ++ "  Capacity: " ++ Decimal.general problem.capacity ++ "\n\n"
    ++ s!"Running {numIterations} iterations...\n"

/-- What is shown after the run; `time` writes nanoseconds as seconds. -/
def closing (time : Int → String) (p : Progress Float (Packing Float)) : String :=
  "\nOptimization complete!\n"
    ++ "  Best value: " ++ Decimal.fixed 3 p.best.value ++ "\n"
    ++ "  Best weight: " ++ Decimal.fixed 3 p.best.weight
    ++ " / " ++ Decimal.fixed 3 problem.capacity ++ "\n"
    ++ "  Total iterations: " ++ toString p.statistics.iterations ++ "\n"
    ++ "  Runtime: " ++ time p.statistics.elapsed ++ "s\n\n"
    ++ "Destroy operators (best/better/accept/reject):\n" ++ table p.statistics.destroyCounts
    ++ "Repair operators (best/better/accept/reject):\n" ++ table p.statistics.repairCounts

/-- The run on a given clock. -/
def search (clock : Nat → Int) : Act Float Unit (Option (Progress Float (Packing Float))) := do
  let parts ← parts
  (engine.run methods clock (numIterations + 1) (some initial)).on (fun _ => parts) fun _ _ => ()

/-- All that is shown, on a given clock. -/
def report (clock : Nat → Int) (time : Int → String) : Except (Fault Float) String := do
  let (result, _) := (search clock).run ⟨(), Generator.ofSeed seed, #[]⟩
  match ← result with
  | some p => return opening ++ closing time p
  | none => return opening

end LargeNeighbourhood.Knapsack.Demo
