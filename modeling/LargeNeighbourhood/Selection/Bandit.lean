/-
# Bandit policies

A policy learns which of some numbered arms pays most.  `Policy` is all that is asked of one; the
policy of this library is epsilon-greedy.

An epsilon-greedy policy plays a uniform arm with probability `epsilon` and else the arm with the
highest mean reward, of equal arms the first.  An arm that was never rewarded has mean zero.
-/
import LargeNeighbourhood.Act
import LargeNeighbourhood.Selection.Scores

namespace LargeNeighbourhood

/-- A bandit policy with states in `π`. -/
structure Policy (K π : Type) where
  /-- Forgets everything and prepares for so many arms. -/
  reset : Nat → π → π
  /-- Whether the policy wants to see contexts; one that does not is given empty ones. -/
  contextual : π → Bool
  /-- Whether the policy was ever rewarded. -/
  fit : π → Bool
  predict : (context : List K) → Act K π Nat
  update : (arm : Nat) → (reward : K) → (context : List K) → Act K π Unit

/-- An epsilon-greedy policy: one running mean for each arm. -/
structure EpsilonGreedy (K : Type) where
  epsilon : K
  fit : Bool := false
  arms : List (Estimate K) := []

namespace EpsilonGreedy

variable {K : Type} [Scalar K]

/-- The `epsilon` unless another is asked for: one in twenty. -/
def standardEpsilon : K := Scalar.ratio 1 20

/-- A new policy without arms; `epsilon` lies in `[0, 1]`. -/
def make (epsilon : K) : Except (Fault K) (EpsilonGreedy K) :=
  if Scalar.within 0 1 epsilon then .ok { epsilon } else .error .epsilonOutside

/-- Forgets everything and prepares for so many arms. -/
def reset (arms : Nat) (s : EpsilonGreedy K) : EpsilonGreedy K :=
  { s with fit := false, arms := List.replicate arms { mean := 0 } }

/-- The position of the highest mean among `best` at `leader` and some more arms, the first of them
at `position`; of equal ones the first. -/
def greedyFrom (best : K) (leader position : Nat) : List (Estimate K) → Nat
  | [] => leader
  | e :: rest =>
    if best < e.mean then greedyFrom e.mean position (position + 1) rest
    else greedyFrom best leader (position + 1) rest

/-- The position of the highest mean, of equal ones the first. -/
def greedy (first : Estimate K) (rest : List (Estimate K)) : Nat := greedyFrom first.mean 0 1 rest

/-- The arm to play.  A draw decides whether to explore, and a second one where. -/
def predict (s : EpsilonGreedy K) : Sampling K Nat :=
  match s.arms with
  | [] => throw .predictBeforeReset
  | first :: rest => do
    let u ← (Draw.uniform : Draw K)
    if u < s.epsilon then return (← Draw.below (rest.length + 1) (Nat.succ_pos _)).val
    else return greedy first rest

/-- Takes a reward in for one of the arms. -/
def update (s : EpsilonGreedy K) (arm : Nat) (reward : K) : Except (Fault K) (EpsilonGreedy K) :=
  if arm < s.arms.length then
    .ok { s with fit := true, arms := s.arms.modify arm fun e => e.nudge reward }
  else .error (.unknownArm arm)

/-- Epsilon-greedy as a policy that wants no contexts. -/
def policy : Policy K (EpsilonGreedy K) where
  reset := reset
  contextual := fun _ => false
  fit := EpsilonGreedy.fit
  predict := fun _ => do Act.sample (← Act.own).predict
  update := fun arm reward _ => do Act.become (← Act.ofExcept ((← Act.own).update arm reward))

end EpsilonGreedy

end LargeNeighbourhood
