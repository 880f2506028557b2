/-
# Selection by a bandit policy

Every legal pair is an arm, numbered in the order of the legal pairs.  Until the policy was
rewarded for the first time, a uniform legal pair is proposed; after that the policy decides.  A
policy that wants contexts sees the current solution's when it predicts and the candidate's when
it is rewarded.
-/
import LargeNeighbourhood.Selection.Bandit
import LargeNeighbourhood.Selection.PairTable
import LargeNeighbourhood.Selection.Selector
import LargeNeighbourhood.Solution

namespace LargeNeighbourhood

/-- A scheme that leaves the choice to a policy in state `π`. -/
structure ArmSelector (K π : Type) where
  scores : Scores K
  table : PairTable
  policy : π
  /-- The arms of all pairs of the matrix, row by row; minus one where there is none. -/
  arms : Array Int := table.numbers
  arms_eq : arms = table.numbers := by rfl

namespace ArmSelector

variable {K π : Type}

/-- The coupling that the scheme keeps to. -/
def coupling (s : ArmSelector K π) : Coupling := s.table.coupling

variable [Scalar K]

/-- A new scheme; the policy is reset to the number of legal pairs. -/
def make (p : Policy K π) (scores : List K) (numDestroy numRepair : Nat) (policy? : Option π)
    (coupling? : Option Coupling) : Except (Fault K) (ArmSelector K π) := do
  let ⟨coupling, usable⟩ ← Coupling.forScheme numDestroy numRepair coupling?
  let scores ← Scores.ofList scores
  match policy? with
  | none => throw .missingPolicy
  | some policy =>
    let table := PairTable.ofCoupling coupling usable
    return { scores, table, policy := p.reset table.size policy }

/-! ## 1. Arms and pairs -/

/-- The number of arms. -/
def numArms (s : ArmSelector K π) : Nat := s.table.size

/-- The pair of an arm. -/
def pairOfArm (s : ArmSelector K π) (arm : Nat) : Except (Fault K) (Nat × Nat) :=
  match s.table.pair? arm with
  | some pair => .ok pair
  | none => .error (.armOutside arm s.numArms)

/-- A number of 64 bits that is read without its sign. -/
def unsigned : Int → Nat
  | .ofNat n => n
  | .negSucc n => 18446744073709551615 - n

/-- The arm of a legal pair. -/
def armOfPair (s : ArmSelector K π) (p : Pair) : Except (Fault K) Nat := do
  let pair ← s.coupling.requireLegal p
  return unsigned (s.arms[s.table.cell pair]?.getD (-1))

/-! ## 2. Proposing and learning -/

/-- Runs an action of the policy. -/
def consult {α : Type} (act : Act K π α) : Act K (ArmSelector K π) α :=
  act.on ArmSelector.policy fun policy s => { s with policy }

variable {X : Type} [Solution K X]

/-- The context of a solution, if the policy wants one. -/
def contextFor (p : Policy K π) (s : ArmSelector K π) (x : X) : Except (Fault K) (List K) :=
  if p.contextual s.policy then Solution.context x else .ok []

/-- One legal pair. -/
def select (p : Policy K π) (current : X) : Act K (ArmSelector K π) (Nat × Nat) := do
  let s ← Act.own
  if p.fit s.policy then
    let context ← Act.ofExcept (s.contextFor p current)
    let arm ← consult (p.predict context)
    Act.ofExcept (s.pairOfArm arm)
  else Act.draw s.table.draw

/-- Rewards the arm of a pair with the score of an outcome. -/
def update (p : Policy K π) (candidate : X) (pair : Pair) (o : Outcome) :
    Act K (ArmSelector K π) Unit := do
  let s ← Act.own
  let arm ← Act.ofExcept (s.armOfPair pair)
  let context ← Act.ofExcept (s.contextFor p candidate)
  consult (p.update arm (s.scores.of o) context)

end ArmSelector

end LargeNeighbourhood
