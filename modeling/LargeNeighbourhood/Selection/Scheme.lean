/-
# The selection schemes of the library

The five schemes as one type, and as a `Selector`.
-/
import LargeNeighbourhood.Selection.ArmSelector
import LargeNeighbourhood.Selection.ConfidenceBound
import LargeNeighbourhood.Selection.Roulette
import LargeNeighbourhood.Selection.UniformChoice

namespace LargeNeighbourhood

/-- A scheme of the library; `π` is the state of a bandit policy. -/
inductive Scheme (K π : Type) where
  | uniform (scheme : UniformChoice)
  | roulette (scheme : Roulette K)
  | segmented (scheme : Segmented K)
  | confidenceBound (scheme : ConfidenceBound K)
  | bandit (scheme : ArmSelector K π)

namespace Scheme

variable {K π : Type}

/-- The coupling that a scheme keeps to. -/
def coupling : Scheme K π → Coupling
  | uniform s => s.coupling
  | roulette s => s.coupling
  | segmented s => s.wheel.coupling
  | confidenceBound s => s.coupling
  | bandit s => s.coupling

variable [Scalar K] [Elementary K] {X : Type} [Solution K X]

/-- One legal pair. -/
def select (p : Policy K π) (current : X) : Act K (Scheme K π) Pair := do
  Pair.ofNat <$> match ← Act.own with
    | uniform s => Act.draw s.draw
    | roulette s => Act.sample s.draw
    | segmented s => Segmented.select.on (fun _ => s) fun s _ => segmented s
    | confidenceBound s => pure s.propose.pair
    | bandit s => (ArmSelector.select p current).on (fun _ => s) fun s _ => bandit s

/-- Reports the outcome of a pair. -/
def update (p : Policy K π) (candidate : X) (pair : Pair) (o : Outcome) :
    Act K (Scheme K π) Unit := do
  match ← Act.own with
  | uniform s => Act.become (uniform (← Act.ofExcept (s.update pair)))
  | roulette s => Act.become (roulette (← Act.ofExcept (s.update pair o)))
  | segmented s => Act.become (segmented (← Act.ofExcept (s.update pair o)))
  | confidenceBound s => Act.become (confidenceBound (← Act.ofExcept (s.update pair o)))
  | bandit s => (ArmSelector.update p candidate pair o).on (fun _ => s) fun s _ => bandit s

/-- The schemes of the library as a search sees them. -/
def selector (p : Policy K π) : Selector K X (Scheme K π) where
  coupling := coupling
  select := fun _ current => select p current
  update := update p

end Scheme

end LargeNeighbourhood
