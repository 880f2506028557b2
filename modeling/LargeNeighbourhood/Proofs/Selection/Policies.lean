/-
# Policies of a bandit

A bandit may have any policy.  What it promises its policy is that it was prepared for as many
arms as there are legal pairs, and is rewarded for no other arms (`Scheme.Arising.prepared`).
What a scheme can ask in return is that the policy takes a reward for every arm it was prepared for
(`Policy.Obliging`); epsilon-greedy does.

An action of the policy is an action of the scheme that changes nothing else of it
(`ArmSelector.result_consult`), so either is a statement about single calls of the policy, carried
along selections and reports by induction.
-/
import Mathlib
import LargeNeighbourhood.Proofs.Selection.Legality

namespace LargeNeighbourhood

open Act

/-! ## 1. Policies that take what they are told -/

namespace Policy

variable {K π : Type} {p : Policy K π} {n : Nat}

/-- The states of a policy that was prepared for so many arms, then asked, and rewarded for arms it
has, in any order and with any answer. -/
inductive Prepared (p : Policy K π) (n : Nat) : π → Prop
  | reset (s : π) : Prepared p n (p.reset n s)
  | predict (context : List K) {w : Setting K π} (h : Prepared p n w.own) :
      Prepared p n (result (p.predict context) w).2.own
  | update {arm : Nat} (harm : arm < n) (reward : K) (context : List K) {w : Setting K π}
      (h : Prepared p n w.own) : Prepared p n (result (p.update arm reward context) w).2.own

/-- The policy takes a reward for every arm it was prepared for. -/
def Obliging (p : Policy K π) : Prop :=
  ∀ n (w : Setting K π), p.Prepared n w.own →
    ∀ arm < n, ∀ reward context, (result (p.update arm reward context) w).1 = .ok ()

end Policy

namespace EpsilonGreedy

variable {K : Type} [Scalar K]

theorem result_update (arm : Nat) (reward : K) (context : List K)
    (w : Setting K (EpsilonGreedy K)) :
    result (policy.update arm reward context) w = match w.own.update arm reward with
      | .ok s => (.ok (), { w with own := s })
      | .error f => (.error f, w) := by
  simp only [policy, result_bind, result_own, result_ofExcept]
  cases w.own.update arm reward <;> rfl

theorem length_of_prepared {n : Nat} {s : EpsilonGreedy K} (h : policy.Prepared n s) :
    s.arms.length = n := by
  induction h with
  | reset s => exact List.length_replicate
  | predict context h ih => exact ih
  | @update arm harm reward context w h ih =>
    rw [result_update]
    cases hu : w.own.update arm reward with
    | error f => exact ih
    | ok t => exact (length_update hu).trans ih

/-- Epsilon-greedy takes a reward for every arm it has. -/
theorem policy_obliging : (policy : Policy K (EpsilonGreedy K)).Obliging := by
  intro n w h arm harm reward context
  have hlt : arm < w.own.arms.length := by rwa [length_of_prepared h]
  rw [result_update, update, if_pos hlt]

end EpsilonGreedy

/-! ## 2. A bandit and its policy -/

namespace ArmSelector

variable {K π X : Type} [Solution K X] {p : Policy K π}

/-- An action of the policy changes the policy and no more of the scheme. -/
theorem result_consult {α : Type} (act : Act K π α) (w : Setting K (ArmSelector K π)) :
    result (consult act) w =
      ((result act ⟨w.own.policy, w.rng, w.lines⟩).1,
        ⟨{ w.own with policy := (result act ⟨w.own.policy, w.rng, w.lines⟩).2.own },
          (result act ⟨w.own.policy, w.rng, w.lines⟩).2.rng,
          (result act ⟨w.own.policy, w.rng, w.lines⟩).2.lines⟩) :=
  result_on _ _ _ _

/-- A report to a bandit: two checks, and the policy is told. -/
theorem result_update (p : Policy K π) (y : X) (pair : Pair) (o : Outcome)
    (w : Setting K (ArmSelector K π)) :
    result (update p y pair o) w = match w.own.armOfPair pair, w.own.contextFor p y with
      | .ok arm, .ok context => result (consult (p.update arm (w.own.scores.of o) context)) w
      | .error f, _ => (.error f, w)
      | .ok _, .error f => (.error f, w) := by
  unfold update
  rw [result_bind, result_own]
  simp only
  rw [result_bind, result_ofExcept]
  cases w.own.armOfPair pair with
  | error f => rfl
  | ok arm =>
    simp only
    rw [result_bind, result_ofExcept]
    cases w.own.contextFor p y <;> rfl

/-- A selection leaves the scheme, or asks the policy once. -/
theorem prepared_select (current : X) {w : Setting K (ArmSelector K π)}
    (h : p.Prepared w.own.table.size w.own.policy) :
    p.Prepared (result (select p current) w).2.own.table.size
      (result (select p current) w).2.own.policy := by
  unfold select
  rw [result_bind, result_own]
  simp only
  split
  · rw [result_bind, result_ofExcept]
    cases w.own.contextFor p current with
    | error f => exact h
    | ok context =>
      have hasked := h.predict context (w := ⟨w.own.policy, w.rng, w.lines⟩)
      simp only
      rw [result_bind, result_consult]
      generalize result (p.predict context) ⟨w.own.policy, w.rng, w.lines⟩ = asked at hasked ⊢
      obtain ⟨_ | arm, v⟩ := asked
      · exact hasked
      · simp only [result_ofExcept]
        exact hasked
  · rw [own_draw]
    exact h

/-- A report leaves the scheme, or rewards the policy for an arm it has. -/
theorem prepared_update (y : X) (pair : Pair) (o : Outcome) {w : Setting K (ArmSelector K π)}
    (h : p.Prepared w.own.table.size w.own.policy) :
    p.Prepared (result (update p y pair o) w).2.own.table.size
      (result (update p y pair o) w).2.own.policy := by
  rw [result_update]
  cases harm : w.own.armOfPair pair with
  | error f => exact h
  | ok arm =>
    cases w.own.contextFor p y with
    | error f => exact h
    | ok context =>
      obtain ⟨dr, -, hallow, rfl⟩ := exists_of_armOfPair harm
      have hlt : w.own.table.index dr < w.own.table.size := PairTable.index_lt_size hallow
      exact h.update hlt _ _ (w := ⟨w.own.policy, w.rng, w.lines⟩)

end ArmSelector

/-! ## 3. All schemes -/

namespace Scheme

variable {K π X : Type} [Scalar K] [Elementary K] [Solution K X] {p : Policy K π}

/-- The schemes that a constructor makes, with a policy for the bandit, and those that selections
and reports lead to, whether they fail or not. -/
inductive Arising (p : Policy K π) (X : Type) [Solution K X] : Scheme K π → Prop
  | uniform {numDestroy numRepair coupling? s}
      (made : (UniformChoice.make numDestroy numRepair coupling? : Except (Fault K) _) = .ok s) :
      Arising p X (.uniform s)
  | roulette {scores decay numDestroy numRepair coupling? floor s}
      (made : Roulette.make scores decay numDestroy numRepair coupling? floor = .ok s) :
      Arising p X (.roulette s)
  | segmented {scores decay length numDestroy numRepair coupling? floor verbose s}
      (made : Segmented.make scores decay length numDestroy numRepair coupling? floor verbose
        = .ok s) :
      Arising p X (.segmented s)
  | confidenceBound {scores alpha numDestroy numRepair coupling? s}
      (made : ConfidenceBound.make scores alpha numDestroy numRepair coupling? = .ok s) :
      Arising p X (.confidenceBound s)
  | bandit {scores numDestroy numRepair policy? coupling? s}
      (made : ArmSelector.make p scores numDestroy numRepair policy? coupling? = .ok s) :
      Arising p X (.bandit s)
  | select (current : X) {w : Setting K (Scheme K π)} (h : Arising p X w.own) :
      Arising p X (result (select p current) w).2.own
  | update (y : X) (pair : Pair) (o : Outcome) {w : Setting K (Scheme K π)}
      (h : Arising p X w.own) : Arising p X (result (update p y pair o) w).2.own

/-- The policy of a bandit was prepared for its arms. -/
def Prepared (p : Policy K π) : Scheme K π → Prop
  | bandit s => p.Prepared s.table.size s.policy
  | _ => True

omit [Elementary K] in
theorem prepared_of_make {s : ArmSelector K π} {scores : List K} {numDestroy numRepair : Nat}
    {policy? : Option π} {coupling? : Option Coupling}
    (h : ArmSelector.make p scores numDestroy numRepair policy? coupling? = .ok s) :
    p.Prepared s.table.size s.policy := by
  unfold ArmSelector.make at h
  obtain ⟨⟨c, usable⟩, -, h⟩ := Checks.bind_ok_iff.1 h
  obtain ⟨scores', -, h⟩ := Checks.bind_ok_iff.1 h
  cases policy? with
  | none => exact absurd h (by simp [Checks.throw_ok_iff])
  | some policy =>
    cases Checks.pure_ok_iff.1 h
    exact .reset policy

theorem prepared_of_select (current : X) {w : Setting K (Scheme K π)} (h : w.own.Prepared p) :
    (result (select p current) w).2.own.Prepared p := by
  obtain ⟨own, rng, lines⟩ := w
  unfold select
  rw [result_bind, result_own]
  simp only
  rw [result_map]
  cases own with
  | uniform s =>
    simp only [own_draw]
    exact True.intro
  | roulette s =>
    simp only [own_sample]
    exact True.intro
  | segmented s =>
    rw [result_on]
    exact True.intro
  | confidenceBound s => exact True.intro
  | bandit s =>
    rw [result_on]
    exact ArmSelector.prepared_select current (w := ⟨s, rng, lines⟩) h

omit [Elementary K] in
theorem prepared_of_update (y : X) (pair : Pair) (o : Outcome) {w : Setting K (Scheme K π)}
    (h : w.own.Prepared p) : (result (update p y pair o) w).2.own.Prepared p := by
  obtain ⟨own, rng, lines⟩ := w
  unfold update
  rw [result_bind, result_own]
  simp only
  cases own with
  | bandit s =>
    rw [result_on]
    exact ArmSelector.prepared_update y pair o (w := ⟨s, rng, lines⟩) h
  | _ s =>
    rw [result_exchange]
    split <;> exact True.intro

theorem Arising.prepared {s : Scheme K π} (h : Arising p X s) : s.Prepared p := by
  induction h with
  | bandit made => exact prepared_of_make made
  | select current h ih => exact prepared_of_select current ih
  | update y pair o h ih => exact prepared_of_update y pair o ih
  | _ => exact True.intro

end Scheme

end LargeNeighbourhood
