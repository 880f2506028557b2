/-
# Upper confidence bounds

Each legal pair is an arm with the mean of its scores, one before the first.  Arms that were never
reported are proposed first, in order.  After that the arm with the greatest

    mean + sqrt (alpha * log (1 + t) / pulls)

is proposed, where `t` counts all reports; of equal arms the first.  A larger `alpha` explores
more.

What is known of the pairs is kept in two arrays, the means and the counts, with a cell for every
pair of the matrix, legal or not.  The arms are the legal pairs, in their order, each with what its
cells hold.
-/
import LargeNeighbourhood.Selection.PairTable
import LargeNeighbourhood.Selection.Scores
import LargeNeighbourhood.Selection.Selector

namespace LargeNeighbourhood

/-- One legal pair and what is known of it. -/
structure Arm (K : Type) where
  pair : Nat × Nat
  estimate : Estimate K

/-- A scheme that proposes the arm with the greatest upper confidence bound. -/
structure ConfidenceBound (K : Type) where
  scores : Scores K
  alpha : K
  table : PairTable
  /-- Reports so far. -/
  iteration : Nat
  /-- The mean scores of all pairs of the matrix, row by row. -/
  means : Array K
  /-- How often each pair of the matrix was reported, row by row. -/
  counts : Array Nat
  size_means : means.size = table.coupling.numDestroy * table.coupling.numRepair
  size_counts : counts.size = table.coupling.numDestroy * table.coupling.numRepair

namespace ConfidenceBound

variable {K : Type}

/-- The coupling that the scheme keeps to. -/
def coupling (s : ConfidenceBound K) : Coupling := s.table.coupling

variable [Scalar K]

/-- A new scheme; `alpha` lies in `[0, 1]`. -/
def make (scores : List K) (alpha : K) (numDestroy numRepair : Nat)
    (coupling? : Option Coupling) : Except (Fault K) (ConfidenceBound K) := do
  let ⟨coupling, usable⟩ ← Coupling.forScheme numDestroy numRepair coupling?
  let scores ← Scores.ofList scores
  if !Scalar.within 0 1 alpha then throw (.alphaOutside alpha)
  let cells := coupling.numDestroy * coupling.numRepair
  return {
    scores, alpha, table := PairTable.ofCoupling coupling usable, iteration := 0
    means := Array.replicate cells 1
    counts := Array.replicate cells 0
    size_means := Array.size_replicate
    size_counts := Array.size_replicate }

/-! ## 1. Arms -/

/-- What the cells of a pair hold. -/
def known (s : ConfidenceBound K) (pair : Nat × Nat) : Estimate K where
  mean := s.means[s.table.cell pair]?.getD 1
  count := s.counts[s.table.cell pair]?.getD 0

/-- The arms in their order. -/
def arms (s : ConfidenceBound K) : List (Arm K) :=
  s.table.pairs.toList.map fun pair => ⟨pair, s.known pair⟩

theorem pairs_arms (s : ConfidenceBound K) : s.arms.map Arm.pair = s.coupling.legalPairs := by
  rw [arms, List.map_map, s.table.pairs_eq, List.toList_toArray]
  exact List.map_id _

theorem arms_ne_nil (s : ConfidenceBound K) : s.arms ≠ [] := by
  intro h
  have hpairs := s.pairs_arms
  rw [h] at hpairs
  exact Coupling.legalPairs_ne_nil s.table.usable hpairs.symm

/-! ## 2. Proposing -/

/-- The logarithm of the time, which counts from one. -/
def logTime [Elementary K] (s : ConfidenceBound K) : K :=
  Elementary.log (1 + (s.iteration : K))

/-- The upper confidence bound of an arm that was reported. -/
def bound [Elementary K] (s : ConfidenceBound K) (logTime : K) (a : Arm K) : K :=
  a.estimate.mean + Elementary.sqrt (s.alpha * logTime / (a.estimate.count : K))

/-- The arm with the greatest value among `leader`, whose value is `best`, and some more; of equal
ones the first. -/
def greatestFrom (value : Arm K → K) (best : K) (leader : Arm K) : List (Arm K) → Arm K
  | [] => leader
  | a :: rest =>
    let v := value a
    if best < v then greatestFrom value v a rest else greatestFrom value best leader rest

/-- The arm with the greatest value, of equal ones the first.  A value that does not compare with
itself never counts; if there are no others, `fallback`. -/
def greatest (value : Arm K → K) (fallback : Arm K) : List (Arm K) → Arm K
  | [] => fallback
  | a :: rest =>
    let v := value a
    if v ≤ v then greatestFrom value v a rest else greatest value fallback rest

/-- The proposed arm. -/
def propose [Elementary K] (s : ConfidenceBound K) : Arm K :=
  match s.arms.find? fun a => a.estimate.count = 0 with
  | some a => a
  | none => greatest (s.bound s.logTime) (s.arms.head s.arms_ne_nil) s.arms

/-! ## 3. Reports -/

/-- Takes a score in for one pair. -/
def absorb (s : ConfidenceBound K) (pair : Nat × Nat) (score : K) : ConfidenceBound K :=
  let e := (s.known pair).absorb score
  { s with
    iteration := s.iteration + 1
    means := s.means.setIfInBounds (s.table.cell pair) e.mean
    counts := s.counts.setIfInBounds (s.table.cell pair) e.count
    size_means := Array.size_setIfInBounds.trans s.size_means
    size_counts := Array.size_setIfInBounds.trans s.size_counts }

/-- Takes the score of an outcome in for a legal pair. -/
def update (s : ConfidenceBound K) (p : Pair) (o : Outcome) :
    Except (Fault K) (ConfidenceBound K) := do
  let pair ← s.coupling.requireLegal p
  return s.absorb pair (s.scores.of o)

/-- What is known of a legal pair. -/
def estimate (s : ConfidenceBound K) (p : Pair) : Except (Fault K) (Estimate K) := do
  let pair ← s.coupling.requireLegal p
  return s.known pair

end ConfidenceBound

end LargeNeighbourhood
