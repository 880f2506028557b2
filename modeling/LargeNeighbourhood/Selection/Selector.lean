/-
# What a search asks of a selection scheme

A scheme proposes a destroy and a repair operator for each iteration and later learns what became
of them.  A search knows a scheme only as a `Selector`: the coupling it keeps to, and two actions
on its state.  Nothing here promises that a proposed pair is legal; the search checks.

The schemes of this library begin alike: they refuse a coupling that has the wrong shape or that
is not usable, and they refuse reports about pairs that are not legal.
-/
import LargeNeighbourhood.Act
import LargeNeighbourhood.Coupling
import LargeNeighbourhood.Outcome

namespace LargeNeighbourhood

/-- A selection scheme with states in `σ` for solutions in `X`. -/
structure Selector (K X σ : Type) where
  coupling : σ → Coupling
  select : (best current : X) → Act K σ Pair
  update : (candidate : X) → Pair → Outcome → Act K σ Unit

namespace Coupling

variable {K : Type}

/-- The coupling of a new scheme.  Without one given, every pair is legal. -/
def forScheme (numDestroy numRepair : Nat) (given? : Option Coupling) :
    Except (Fault K) { c : Coupling // c.Usable } := do
  if numDestroy = 0 ∨ numRepair = 0 then throw .missingOperators
  let c := given?.getD (all numDestroy numRepair)
  c.validateShape numDestroy numRepair
  c.require

/-- The natural indices of a legal pair; any other pair is refused. -/
def requireLegal (c : Coupling) (p : Pair) : Except (Fault K) (Nat × Nat) :=
  match c.legal? p with
  | some dr => .ok dr
  | Option.none => .error (.forbiddenPair p.destroy p.repair)

end Coupling

end LargeNeighbourhood
