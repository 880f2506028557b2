/-
# The command line

Runs the demonstration on the clock of the machine.  Only this module reads a clock and prints.
-/
import LargeNeighbourhood.Fault.Message
import LargeNeighbourhood.Knapsack.Demo

namespace LargeNeighbourhood.Knapsack.Demo

/-- Nanoseconds of the machine's clock. -/
def clock : BaseIO Int := do
  return (← IO.monoNanosNow)

/-- Iterations until the rule stops them, each on the machine's clock. -/
def live (coupling : Coupling) : Nat → Progress Float (Packing Float) → Setting Float Parts →
    BaseIO (Except (Fault Float) (Progress Float (Packing Float)))
  | 0, p, _ => return .ok p
  | fuel + 1, p, w => do
    let (answer, w) := Engine.shouldStop methods (← clock) p w
    match answer with
    | .error f => return .error f
    | .ok true => return .ok p
    | .ok false =>
      let (result, w) := engine.turn methods coupling p w
      match result with
      | .error f => return .error f
      | .ok t =>
        let (next, w) := engine.conclude (← clock) p t w
        match next with
        | .error f => return .error f
        | .ok next => live coupling fuel next w

/-- The run on the machine's clock. -/
def liveSearch : BaseIO (Except (Fault Float) (Progress Float (Packing Float))) := do
  let (parts, w) := parts.run ⟨(), Generator.ofSeed seed, #[]⟩
  match parts with
  | .error f => return .error f
  | .ok parts =>
    let coupling := methods.selector.coupling parts.scheme
    match engine.prepare coupling (some initial) with
    | .error f => return .error f
    | .ok (initial, coupling) =>
      let (begun, w) := engine.start (← clock) initial ⟨parts, w.rng, w.lines⟩
      match begun with
      | .error f => return .error f
      | .ok p => live coupling (numIterations + 1) p w

/-- Nanoseconds as seconds with three places. -/
def secondsText (nanoseconds : Int) : String :=
  Decimal.fixed 3 (Statistics.seconds nanoseconds)

end LargeNeighbourhood.Knapsack.Demo

open LargeNeighbourhood.Knapsack in
/-- Shows the demonstration. -/
def main : IO UInt32 := do
  IO.print Demo.opening
  match ← Demo.liveSearch with
  | .ok p =>
    IO.print (Demo.closing Demo.secondsText p)
    return 0
  | .error f =>
    IO.eprintln f.message
    return 1
