/-
# Schemes do not look at the best solution

A search tells its scheme the best and the current solution.  No scheme of the library looks at the
best one, none reads the log, and none changes its coupling (`Scheme.selector_oblivious`).  So what
a scheme proposes and learns is decided by its own state, the generator, the current solution and
the reports, whatever the arithmetic.

The three facts are proved in one pass over each scheme: two states that are the same and have a
given coupling (`SameAt`) are taken through the same action in lock-step.
-/
import LargeNeighbourhood.Proofs.Agreement
import LargeNeighbourhood.Proofs.Checks
import LargeNeighbourhood.Selection.Scheme

namespace LargeNeighbourhood

open Act

/-! ## 1. Oblivious schemes -/

/-- The same state, and some part of it is given. -/
def SameAt {σ β : Type} (part : σ → β) (b : β) (s s' : σ) : Prop := s = s' ∧ part s = b

/-- The scheme does not look at the best solution, does not read the log, and keeps its coupling,
also where it fails. -/
structure Selector.Oblivious {K X σ : Type} (s : Selector K X σ) : Prop where
  select : ∀ c best best' current, Agree (Setting.Over (SameAt s.coupling c)) Eq
    (s.select best current) (s.select best' current)
  update : ∀ c y pair o, Agree (Setting.Over (SameAt s.coupling c)) Eq
    (s.update y pair o) (s.update y pair o)

/-- Nothing the policy does depends on the log. -/
structure Policy.Deaf {K π : Type} (p : Policy K π) : Prop where
  predict : ∀ context, Act.Deaf (p.predict context)
  update : ∀ arm reward context, Act.Deaf (p.update arm reward context)

section Schemes

variable {K π X : Type} [Scalar K] [Solution K X] {p : Policy K π} {c : Coupling}

theorem EpsilonGreedy.policy_deaf : (policy : Policy K (EpsilonGreedy K)).Deaf where
  predict := fun _ => Agree.own.bind_eq fun _ => .sample _
  update := fun _ _ _ => Agree.own.bind_eq fun _ => (Agree.ofExcept _).bind fun _ _ h => .become h.1

/-! ## 2. The bandit -/

namespace ArmSelector

omit [Scalar K] in
/-- An action of the policy leaves the coupling alone. -/
theorem agree_consult {α : Type} {act : Act K π α} (h : Act.Deaf act) :
    Agree (Setting.Over (SameAt ArmSelector.coupling c)) Eq
      (consult act : Act K (ArmSelector K π) α) (consult act) := by
  refine h.on (fun s s' hs => congrArg policy hs.1) ?_
  rintro t _ s _ ⟨rfl, hs⟩ rfl
  exact ⟨rfl, hs⟩

section Lockstep

variable {S : Setting K (ArmSelector K π) → Setting K (ArmSelector K π) → Prop}
  (hown : Agree S Eq own own)
include hown

omit [Scalar K] in
/-- Two bandits in one state propose alike if their policies predict alike. -/
theorem agree_select_of (hdraw : ∀ d : Draw (Nat × Nat), Agree S Eq (draw d) (draw d))
    (hpredict : ∀ context, Agree S Eq (consult (p.predict context))
      (consult (p.predict context))) (current : X) :
    Agree S Eq (select p current) (select p current) := by
  unfold select
  refine hown.bind_eq fun s => ?_
  split
  · refine (Agree.ofExcept _).bind ?_
    rintro context _ ⟨rfl, -⟩
    refine (hpredict context).bind_eq fun arm => ?_
    exact (Agree.ofExcept _).mono fun _ _ h => h.1
  · exact hdraw _

omit [Scalar K] in
/-- And they take reports alike if their policies take rewards alike. -/
theorem agree_update_of (hreward : ∀ arm reward context,
      Agree S Eq (consult (p.update arm reward context)) (consult (p.update arm reward context)))
    (y : X) (pair : Pair) (o : Outcome) :
    Agree S Eq (update p y pair o) (update p y pair o) := by
  unfold update
  refine hown.bind_eq fun s => ?_
  refine (Agree.ofExcept _).bind ?_
  rintro arm _ ⟨rfl, -⟩
  refine (Agree.ofExcept _).bind ?_
  rintro context _ ⟨rfl, -⟩
  exact hreward arm _ context

end Lockstep

omit [Scalar K] in
theorem agree_select (hp : p.Deaf) (current : X) :
    Agree (Setting.Over (SameAt ArmSelector.coupling c)) Eq
      (select p current : Act K (ArmSelector K π) _) (select p current) :=
  agree_select_of (Agree.own.mono fun _ _ h => h.1) .draw
    (fun context => agree_consult (hp.predict context)) current

omit [Scalar K] in
theorem agree_update (hp : p.Deaf) (y : X) (pair : Pair) (o : Outcome) :
    Agree (Setting.Over (SameAt ArmSelector.coupling c)) Eq
      (update p y pair o : Act K (ArmSelector K π) _) (update p y pair o) :=
  agree_update_of (Agree.own.mono fun _ _ h => h.1)
    (fun arm reward context => agree_consult (hp.update arm reward context)) y pair o

end ArmSelector

/-! ## 3. The segmented wheel -/

/-- The end of a segment changes weights and sums only. -/
theorem Segmented.coupling_advance (s : Segmented K) :
    s.advance.wheel.coupling = s.wheel.coupling := by
  unfold advance
  simp only
  split <;> rfl

theorem Segmented.agree_select :
    Agree (Setting.Over (SameAt (fun s : Segmented K => s.wheel.coupling) c)) Eq
      (select : Act K (Segmented K) _) select := by
  unfold select
  refine Agree.own.bind ?_
  rintro s _ ⟨rfl, hs⟩
  refine (Agree.sayIf _ _ _ _).bind_eq fun _ => ?_
  refine (Agree.become ⟨rfl, s.coupling_advance.trans hs⟩).bind_eq fun _ => ?_
  exact .sample _

/-! ## 4. All schemes -/

namespace Scheme

variable [Elementary K]

theorem agree_select (hp : p.Deaf) (current : X) :
    Agree (Setting.Over (SameAt Scheme.coupling c)) Eq
      (select p current : Act K (Scheme K π) _) (select p current) := by
  unfold select
  refine Agree.own.bind ?_
  rintro s _ ⟨rfl, hs⟩
  refine Agree.map ?_ fun _ _ h => congrArg Pair.ofNat h
  cases s with
  | uniform s => exact .draw _
  | roulette s => exact .sample _
  | segmented s =>
    exact Segmented.agree_select.on (fun _ _ _ => ⟨rfl, hs⟩)
      fun _ _ _ _ _ ht => ⟨congrArg segmented ht.1, ht.2⟩
  | confidenceBound s => exact .pure rfl
  | bandit s =>
    exact (ArmSelector.agree_select hp current).on (fun _ _ _ => ⟨rfl, hs⟩)
      fun _ _ _ _ _ ht => ⟨congrArg bandit ht.1, ht.2⟩

omit [Scalar K] [Elementary K] in
/-- A state that is checked and then replaced by one with the same coupling. -/
theorem agree_exchange {τ : Type} {wrap : τ → Scheme K π} {r : Except (Fault K) τ}
    (h : ∀ t, r = .ok t → (wrap t).coupling = c) :
    Agree (Setting.Over (SameAt Scheme.coupling c)) Eq
      (do Act.become (wrap (← Act.ofExcept r)) : Act K (Scheme K π) Unit)
      (do Act.become (wrap (← Act.ofExcept r))) := by
  refine (Agree.ofExcept r).bind ?_
  rintro t _ ⟨rfl, ht⟩
  exact .become ⟨rfl, h t ht⟩

omit [Elementary K] in
theorem agree_update (hp : p.Deaf) (y : X) (pair : Pair) (o : Outcome) :
    Agree (Setting.Over (SameAt Scheme.coupling c)) Eq
      (update p y pair o : Act K (Scheme K π) _) (update p y pair o) := by
  unfold update
  refine Agree.own.bind ?_
  rintro s _ ⟨rfl, hs⟩
  cases s with
  | bandit s =>
    exact (ArmSelector.agree_update hp y pair o).on (fun _ _ _ => ⟨rfl, hs⟩)
      fun _ _ _ _ _ ht => ⟨congrArg bandit ht.1, ht.2⟩
  | _ s =>
    -- the others check the pair, and then replace what they know of it
    refine agree_exchange fun t ht => ?_
    obtain ⟨_, -, ht⟩ := Checks.bind_ok_iff.1 ht
    cases Checks.pure_ok_iff.1 ht
    exact hs

/-- **No scheme of the library looks at the best solution.** -/
theorem selector_oblivious (hp : p.Deaf) :
    (selector p : Selector K X (Scheme K π)).Oblivious where
  select := fun _ _ _ current => agree_select hp current
  update := fun _ y pair o => agree_update hp y pair o

end Scheme

end Schemes

end LargeNeighbourhood
