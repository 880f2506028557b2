/-
# Uniform choice

Every legal pair is as likely as any other, and nothing is learned.
-/
import LargeNeighbourhood.Selection.PairTable
import LargeNeighbourhood.Selection.Selector

namespace LargeNeighbourhood

/-- A scheme that draws legal pairs uniformly. -/
structure UniformChoice where
  table : PairTable

namespace UniformChoice

variable {K : Type}

/-- The coupling that the scheme keeps to. -/
def coupling (s : UniformChoice) : Coupling := s.table.coupling

/-- A new scheme. -/
def make (numDestroy numRepair : Nat) (coupling? : Option Coupling) :
    Except (Fault K) UniformChoice := do
  let ⟨coupling, usable⟩ ← Coupling.forScheme numDestroy numRepair coupling?
  return { table := PairTable.ofCoupling coupling usable }

/-- One legal pair. -/
def draw (s : UniformChoice) : Draw (Nat × Nat) := s.table.draw

/-- A report is checked and forgotten. -/
def update (s : UniformChoice) (p : Pair) : Except (Fault K) UniformChoice := do
  let _ ← s.coupling.requireLegal p
  return s

end UniformChoice

end LargeNeighbourhood
