/-
# Roulette wheels

Every operator has a weight, one to begin with.  A destroy operator is drawn by weight, then a
repair operator by weight among its partners.  A report mixes the score of its outcome into the
weights of the two operators:

    w  becomes  decay * w + (1 - decay) * score,  but not less than the floor.

The segmented wheel lets the weights rest for a segment of selections.  Scores of a segment are
summed for each operator, and the sums enter the weights, by the same rule, when the segment
ends: in every `length`-th selection, before it draws.
-/
import LargeNeighbourhood.Random.Weighted
import LargeNeighbourhood.Selection.Scores
import LargeNeighbourhood.Selection.Selector

namespace LargeNeighbourhood

/-! ## 1. The wheel -/

/-- A wheel.  Its coupling may be edited while it turns, so it is not known to be usable. -/
structure Roulette (K : Type) where
  scores : Scores K
  decay : K
  floor : K
  coupling : Coupling
  destroyWeights : List K
  repairWeights : List K

namespace Roulette

variable {K : Type} [Scalar K]

/-- The floor of the weights unless another is asked for: a millionth. -/
def standardFloor : K := Scalar.ratio 1 1000000

/-- A new wheel; the decay lies in `[0, 1]` and the floor is positive. -/
def make (scores : List K) (decay : K) (numDestroy numRepair : Nat)
    (coupling? : Option Coupling) (floor : K) : Except (Fault K) (Roulette K) := do
  let ⟨coupling, _⟩ ← Coupling.forScheme numDestroy numRepair coupling?
  let scores ← Scores.ofList scores
  if !Scalar.within 0 1 decay then throw .decayOutside
  if !decide (0 < floor) then throw .weightFloor
  return {
    scores, decay, floor, coupling
    destroyWeights := List.replicate numDestroy 1
    repairWeights := List.replicate numRepair 1 }

/-- A weight after a score was mixed into it. -/
def mix (s : Roulette K) (score weight : K) : K :=
  Scalar.upper (s.decay * weight + (1 - s.decay) * score) s.floor

/-- The weights of a destroy operator's partners, each with its index. -/
def partnerWeights (s : Roulette K) (d : Nat) : List (K × Nat) :=
  s.repairWeights.zipIdx.filter fun e => s.coupling.allows d e.2

/-- One pair.  A destroy operator that lost its last partner fails after it was drawn. -/
def draw (s : Roulette K) : Sampling K (Nat × Nat) := do
  let d ← Sampling.weighted s.destroyWeights.zipIdx
  match s.partnerWeights d with
  | [] => throw (.strandedDestroy d)
  | partners => do
    let r ← Sampling.weighted partners
    return (d, r)

/-- Mixes the score of an outcome into the weights of the two operators. -/
def update (s : Roulette K) (p : Pair) (o : Outcome) : Except (Fault K) (Roulette K) := do
  let (d, r) ← s.coupling.requireLegal p
  return { s with
    destroyWeights := s.destroyWeights.modify d (s.mix (s.scores.of o))
    repairWeights := s.repairWeights.modify r (s.mix (s.scores.of o)) }

/-- Edits one mark of the coupling.  Whether it stays usable is not checked. -/
def setMark (s : Roulette K) (d r : Nat) (coupled : Bool) : Except (Fault K) (Roulette K) := do
  return { s with coupling := ← s.coupling.set d r coupled }

end Roulette

/-! ## 2. The segmented wheel -/

/-- A wheel whose weights change only at the end of a segment. -/
structure Segmented (K : Type) where
  wheel : Roulette K
  length : Nat
  verbose : Bool
  /-- Selections so far. -/
  iteration : Nat
  destroySums : List K
  repairSums : List K

namespace Segmented

variable {K : Type} [Scalar K]

/-- A new segmented wheel; a segment has at least one selection. -/
def make (scores : List K) (decay : K) (length : Int) (numDestroy numRepair : Nat)
    (coupling? : Option Coupling) (floor : K) (verbose : Bool) :
    Except (Fault K) (Segmented K) := do
  let wheel ← Roulette.make scores decay numDestroy numRepair coupling? floor
  if length < 1 then throw .segmentLength
  return {
    wheel, length := length.toNat, verbose, iteration := 0
    destroySums := List.replicate numDestroy 0
    repairSums := List.replicate numRepair 0 }

/-- The selection with this number ends a segment. -/
def endsSegment (s : Segmented K) (iteration : Nat) : Bool := iteration % s.length = 0

/-- The sums enter the weights, and begin again at zero. -/
def closeSegment (s : Segmented K) : Segmented K :=
  { s with
    wheel := { s.wheel with
      destroyWeights := List.zipWith s.wheel.mix s.destroySums s.wheel.destroyWeights
      repairWeights := List.zipWith s.wheel.mix s.repairSums s.wheel.repairWeights }
    destroySums := s.wheel.destroyWeights.map fun _ => 0
    repairSums := s.wheel.repairWeights.map fun _ => 0 }

/-- Counts a selection, and closes the segment if it is due. -/
def advance (s : Segmented K) : Segmented K :=
  let s := { s with iteration := s.iteration + 1 }
  if s.endsSegment s.iteration then s.closeSegment else s

/-- One pair, by the weights after `advance`. -/
def select : Act K (Segmented K) (Nat × Nat) := do
  let s := (← Act.own).advance
  Act.sayIf (s.verbose && s.endsSegment s.iteration) (.segmentEnd s.iteration)
  Act.become s
  Act.sample s.wheel.draw

/-- Adds the score of an outcome to the sums of the two operators. -/
def update (s : Segmented K) (p : Pair) (o : Outcome) : Except (Fault K) (Segmented K) := do
  let (d, r) ← s.wheel.coupling.requireLegal p
  let score := s.wheel.scores.of o
  return { s with
    destroySums := s.destroySums.modify d (· + score)
    repairSums := s.repairSums.modify r (· + score) }

/-- Edits one mark of the wheel's coupling. -/
def setMark (s : Segmented K) (d r : Nat) (coupled : Bool) : Except (Fault K) (Segmented K) := do
  return { s with wheel := ← s.wheel.setMark d r coupled }

end Segmented

end LargeNeighbourhood
