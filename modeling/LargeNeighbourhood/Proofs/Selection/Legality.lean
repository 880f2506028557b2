/-
# Selections are legal

Every scheme of the library proposes legal pairs only, and it never fails to propose one.  The
schemes get there by different roads: uniform choice and the bandit index a table of the legal
pairs, the confidence bound keeps an arm for each of them, and a wheel draws among the partners of
the destroy operator it drew.

`Scheme.Turning` is what the state of a scheme has to be for this.  Every constructor establishes
it, and selections and reports keep it whatever they are asked, so every reachable scheme has it
(`Scheme.Reachable.turning`).

The coupling of a wheel can be edited afterwards, without a check.  Such a wheel still proposes
legal pairs only; at a destroy operator that lost its last partner it stops with a fault.
-/
import Mathlib
import LargeNeighbourhood.Proofs.Selection.Cells
import LargeNeighbourhood.Proofs.Selection.Wheel
import LargeNeighbourhood.Selection.Scheme

namespace LargeNeighbourhood

open Act

/-! ## 1. Arms -/

/-- A scheme takes a report about a legal pair. -/
theorem Coupling.requireLegal_ofNat {K : Type} {c : Coupling} {dr : Nat × Nat}
    (h : c.allows dr.1 dr.2 = true) :
    (c.requireLegal (Pair.ofNat dr) : Except (Fault K) (Nat × Nat)) = .ok dr := by
  rw [requireLegal, legal?_ofNat h]

/-- A report that a scheme takes is about a legal pair. -/
theorem Coupling.requireLegal_eq_ok {K : Type} {c : Coupling} {p : Pair} {dr : Nat × Nat}
    (h : (c.requireLegal p : Except (Fault K) (Nat × Nat)) = .ok dr) :
    p = Pair.ofNat dr ∧ c.allows dr.1 dr.2 = true := by
  unfold requireLegal at h
  split at h
  · rename_i hlegal
    cases h
    exact legal?_eq_some hlegal
  · exact absurd h (by simp)

/-- The arm of a legal pair is its number in the table. -/
theorem ArmSelector.armOfPair_ofNat {K π : Type} {s : ArmSelector K π} {dr : Nat × Nat}
    (h : s.coupling.allows dr.1 dr.2 = true) :
    s.armOfPair (Pair.ofNat dr) = .ok (s.table.index dr) := by
  have hcell : s.arms[s.table.cell dr]? = some (s.table.index dr : Int) := by
    rw [s.arms_eq]
    exact s.table.getElem?_numbers (PairTable.pair?_index h)
  rw [armOfPair, Coupling.requireLegal_ofNat h]
  show Except.ok (unsigned (s.arms[s.table.cell dr]?.getD (-1))) = _
  rw [hcell]
  rfl

/-- Only legal pairs have an arm. -/
theorem ArmSelector.exists_of_armOfPair {K π : Type} {s : ArmSelector K π} {p : Pair} {arm : Nat}
    (h : s.armOfPair p = .ok arm) :
    ∃ dr, p = Pair.ofNat dr ∧ s.coupling.allows dr.1 dr.2 = true ∧ arm = s.table.index dr := by
  obtain ⟨dr, hdr, -⟩ := Checks.bind_ok_iff.1 h
  obtain ⟨rfl, hallow⟩ := Coupling.requireLegal_eq_ok hdr
  rw [armOfPair_ofNat hallow] at h
  exact ⟨dr, rfl, hallow, (Except.ok.inj h).symm⟩

namespace ConfidenceBound

variable {K : Type} [Scalar K]

theorem greatestFrom_mem (value : Arm K → K) (best : K) (leader : Arm K) (rest : List (Arm K)) :
    greatestFrom value best leader rest ∈ leader :: rest := by
  induction rest generalizing best leader with
  | nil => exact List.mem_singleton_self _
  | cons a rest ih =>
    rw [greatestFrom]
    split
    · exact List.mem_cons_of_mem _ (ih _ _)
    · rcases List.mem_cons.1 (ih best leader) with h | h
      · rw [h]
        exact List.mem_cons_self ..
      · exact List.mem_cons_of_mem _ (List.mem_cons_of_mem _ h)

theorem greatest_mem (value : Arm K → K) (fallback : Arm K) (arms : List (Arm K)) :
    greatest value fallback arms ∈ fallback :: arms := by
  induction arms with
  | nil => exact List.mem_singleton_self _
  | cons a rest ih =>
    rw [greatest]
    split
    · exact List.mem_cons_of_mem _ (greatestFrom_mem _ _ _ _)
    · rcases List.mem_cons.1 ih with h | h
      · rw [h]
        exact List.mem_cons_self ..
      · exact List.mem_cons_of_mem _ (List.mem_cons_of_mem _ h)

/-- What is known of a legal pair. -/
theorem estimate_ofNat {s : ConfidenceBound K} {dr : Nat × Nat}
    (h : s.coupling.allows dr.1 dr.2 = true) : s.estimate (Pair.ofNat dr) = .ok (s.known dr) := by
  rw [estimate, Coupling.requireLegal_ofNat h]
  rfl

/-- The proposed arm is one of the arms, so its pair is legal. -/
theorem allows_propose [Elementary K] (s : ConfidenceBound K) :
    s.coupling.allows s.propose.pair.1 s.propose.pair.2 = true := by
  have hmem : s.propose ∈ s.arms := by
    unfold propose
    split
    · rename_i a ha
      exact List.mem_of_find?_eq_some ha
    · rcases List.mem_cons.1 (greatest_mem (s.bound s.logTime) (s.arms.head s.arms_ne_nil) s.arms)
        with h | h
      · rw [h]
        exact List.head_mem _
      · exact h
  exact allows_of_mem_arms hmem

end ConfidenceBound

/-! ## 2. The bandit -/

namespace EpsilonGreedy

variable {K : Type} [Scalar K]

theorem greedyFrom_lt {best : K} {leader position : Nat} (h : leader < position)
    (rest : List (Estimate K)) : greedyFrom best leader position rest < position + rest.length := by
  induction rest generalizing best leader position with
  | nil => exact h
  | cons e rest ih =>
    rw [greedyFrom, List.length_cons]
    split
    · have hlt : greedyFrom e.mean position (position + 1) rest < position + 1 + rest.length :=
        ih (Nat.lt_succ_self position)
      omega
    · have hlt : greedyFrom best leader (position + 1) rest < position + 1 + rest.length :=
        ih (Nat.lt_succ_of_lt h)
      omega

/-- The policy plays one of its arms. -/
theorem predict_ok {s : EpsilonGreedy K} (h : s.arms ≠ []) (g : Generator) :
    ∃ arm, (s.predict g : Except (Fault K) Nat × Generator).1 = .ok arm ∧ arm < s.arms.length := by
  cases hs : s.arms with
  | nil => exact absurd hs h
  | cons first rest =>
    unfold predict
    rw [hs]
    simp only
    rw [Sampling.draw_bind_apply]
    by_cases hu : (Draw.uniform g : K × Generator).1 < s.epsilon
    · refine ⟨(Draw.below (rest.length + 1) (Nat.succ_pos _) (Draw.uniform g : K × Generator).2 :
        Fin (rest.length + 1) × Generator).1.val, ?_, Fin.isLt _⟩
      rw [if_pos hu, Sampling.draw_bind_apply]
      rfl
    · refine ⟨greedy first rest, ?_, ?_⟩
      · rw [if_neg hu]
        rfl
      · have hlt : greedy first rest < 1 + rest.length := greedyFrom_lt Nat.one_pos rest
        rw [List.length_cons]
        omega

/-- Rewards keep the number of arms. -/
theorem length_update {s t : EpsilonGreedy K} {arm : Nat} {reward : K}
    (h : s.update arm reward = .ok t) : t.arms.length = s.arms.length := by
  unfold update at h
  split at h
  · cases h
    exact List.length_modify ..
  · exact absurd h (by simp)

end EpsilonGreedy

namespace ArmSelector

variable {K X : Type} [Scalar K] [Solution K X]

/-- A bandit that can choose: its policy has an arm for every legal pair. -/
def Turning (s : ArmSelector K (EpsilonGreedy K)) : Prop := s.policy.arms.length = s.table.size

omit [Scalar K] in
theorem Turning.arms_ne_nil {s : ArmSelector K (EpsilonGreedy K)} (h : s.Turning) :
    s.policy.arms ≠ [] := by
  rw [← List.length_pos_iff, h]
  exact s.table.size_pos

theorem turning_of_make {s : ArmSelector K (EpsilonGreedy K)} {scores : List K}
    {numDestroy numRepair : Nat} {policy? : Option (EpsilonGreedy K)}
    {coupling? : Option Coupling}
    (h : make EpsilonGreedy.policy scores numDestroy numRepair policy? coupling? = .ok s) :
    s.Turning := by
  unfold make at h
  obtain ⟨⟨c, usable⟩, -, h⟩ := Checks.bind_ok_iff.1 h
  obtain ⟨scores', -, h⟩ := Checks.bind_ok_iff.1 h
  cases policy? with
  | none => exact absurd h (by simp [Checks.throw_ok_iff])
  | some policy =>
    cases Checks.pure_ok_iff.1 h
    exact List.length_replicate

/-- The policy wants no context. -/
theorem contextFor_policy (s : ArmSelector K (EpsilonGreedy K)) (x : X) :
    s.contextFor EpsilonGreedy.policy x = .ok [] := rfl

theorem result_predict (context : List K) (w : Setting K (ArmSelector K (EpsilonGreedy K))) :
    result (consult (EpsilonGreedy.policy.predict context)) w =
      ((w.own.policy.predict w.rng : Except (Fault K) Nat × Generator).1,
        { w with rng := (w.own.policy.predict w.rng : Except (Fault K) Nat × Generator).2 }) := rfl

/-- **A bandit that can choose proposes a legal pair**, and only the generator moves. -/
theorem select_spec (current : X) {w : Setting K (ArmSelector K (EpsilonGreedy K))}
    (h : w.own.Turning) :
    ∃ dr rng, result (select EpsilonGreedy.policy current) w = (.ok dr, { w with rng }) ∧
      w.own.coupling.allows dr.1 dr.2 = true := by
  unfold select
  rw [result_bind, result_own]
  simp only
  by_cases hfit : EpsilonGreedy.policy.fit w.own.policy = true
  · obtain ⟨arm, harm, hlt⟩ := EpsilonGreedy.predict_ok h.arms_ne_nil w.rng
    rw [h] at hlt
    have hpair : w.own.table.pair? arm = some w.own.table.pairs[arm] :=
      Array.getElem?_eq_getElem hlt
    rw [if_pos hfit, contextFor_policy, result_bind, result_ofExcept]
    simp only
    rw [result_bind, result_predict, harm]
    simp only
    rw [result_ofExcept, pairOfArm, hpair]
    exact ⟨_, _, rfl, PairTable.allows_of_pair? hpair⟩
  · rw [if_neg hfit, result_draw]
    exact ⟨_, _, rfl, w.own.table.allows_draw w.rng⟩

theorem result_reward (arm : Nat) (reward : K) (context : List K)
    (w : Setting K (ArmSelector K (EpsilonGreedy K))) :
    result (consult (EpsilonGreedy.policy.update arm reward context)) w =
      match w.own.policy.update arm reward with
      | .ok policy => (.ok (), { w with own := { w.own with policy } })
      | .error f => (.error f, w) := by
  unfold consult
  rw [result_on]
  simp only [EpsilonGreedy.policy, result_bind, result_own, result_ofExcept]
  cases w.own.policy.update arm reward with
  | error f => rfl
  | ok policy => rfl

/-- A report to a bandit is refused and changes nothing, or changes the means of the policy. -/
theorem update_cases (y : X) (pair : Pair) (o : Outcome)
    (w : Setting K (ArmSelector K (EpsilonGreedy K))) :
    (∃ f, result (update EpsilonGreedy.policy y pair o) w = (.error f, w)) ∨
      ∃ policy, policy.arms.length = w.own.policy.arms.length ∧
        result (update EpsilonGreedy.policy y pair o) w
          = (.ok (), { w with own := { w.own with policy } }) := by
  unfold update
  rw [result_bind, result_own]
  simp only
  rw [result_bind, result_ofExcept]
  cases w.own.armOfPair pair with
  | error f => exact Or.inl ⟨f, rfl⟩
  | ok arm =>
    simp only
    rw [contextFor_policy, result_bind, result_ofExcept]
    simp only
    rw [result_reward]
    cases hp : w.own.policy.update arm (w.own.scores.of o) with
    | error f => exact Or.inl ⟨f, rfl⟩
    | ok policy => exact Or.inr ⟨policy, EpsilonGreedy.length_update hp, rfl⟩

/-- A report about a legal pair is taken. -/
theorem update_ok (y : X) (o : Outcome) {w : Setting K (ArmSelector K (EpsilonGreedy K))}
    (h : w.own.Turning) {dr : Nat × Nat} (hdr : w.own.coupling.allows dr.1 dr.2 = true) :
    (result (update EpsilonGreedy.policy y (Pair.ofNat dr) o) w).1 = .ok () := by
  have hlt : w.own.table.index dr < w.own.policy.arms.length := by
    rw [h]
    exact PairTable.index_lt_size hdr
  unfold update
  rw [result_bind, result_own]
  simp only
  rw [armOfPair_ofNat hdr, result_bind, result_ofExcept]
  simp only
  rw [contextFor_policy, result_bind, result_ofExcept]
  simp only
  rw [result_reward, EpsilonGreedy.update, if_pos hlt]

end ArmSelector

/-! ## 3. All schemes -/

namespace Scheme

variable {K X : Type} [Field K] [LinearOrder K] [Elementary K] [Solution K X]

/-- What the state of a scheme has to be, so that it can select. -/
def Turning : Scheme K (EpsilonGreedy K) → Prop
  | roulette s => s.Turning
  | segmented s => s.Turning
  | bandit s => s.Turning
  | _ => True

/-- The selection of a legal pair. -/
def Proposes (c : Coupling) (r : Except (Fault K) Pair) : Prop :=
  ∃ dr, r = .ok (Pair.ofNat dr) ∧ c.allows dr.1 dr.2 = true

/-- The fault at a destroy operator without partners. -/
def Strands (c : Coupling) (r : Except (Fault K) Pair) : Prop :=
  ∃ d, r = .error (.strandedDestroy d) ∧ d < c.numDestroy ∧ c.partners d = []

variable [IsStrictOrderedRing K]

/-- **A scheme that can select** proposes a legal pair or stops at a destroy operator without
partners, and can select afterwards. -/
theorem select_cases (current : X) {w : Setting K (Scheme K (EpsilonGreedy K))}
    (h : w.own.Turning) :
    ∃ r v, result (select EpsilonGreedy.policy current) w = (r, v) ∧ v.own.Turning ∧
      v.own.coupling = w.own.coupling ∧
      (Proposes w.own.coupling r ∨ Strands w.own.coupling r) := by
  obtain ⟨own, rng, lines⟩ := w
  simp only at h
  unfold select
  rw [result_bind, result_own]
  simp only
  cases own with
  | uniform s =>
    simp only [result_map, result_draw]
    exact ⟨_, _, rfl, True.intro, rfl, Or.inl ⟨_, rfl, s.table.allows_draw rng⟩⟩
  | roulette s =>
    simp only [result_map, result_sample]
    rcases Roulette.draw_cases h rng with ⟨dr, g, hdraw, hallow⟩ | ⟨d, g, hdraw, hd, hp⟩
    · rw [hdraw]
      exact ⟨_, _, rfl, h, rfl, Or.inl ⟨dr, rfl, hallow⟩⟩
    · rw [hdraw]
      exact ⟨_, _, rfl, h, rfl, Or.inr ⟨d, rfl, hd, hp⟩⟩
  | segmented s =>
    obtain ⟨hadvance, hcoupling⟩ := Segmented.Turning.advance h
    obtain ⟨said, hselect⟩ := Segmented.select_spec (⟨s, rng, lines⟩ : Setting K (Segmented K))
    simp only [result_map, result_on, hselect]
    rcases Roulette.draw_cases hadvance.wheel rng with
      ⟨dr, g, hdraw, hallow⟩ | ⟨d, g, hdraw, hd, hp⟩
    · rw [hdraw]
      rw [hcoupling] at hallow
      exact ⟨_, _, rfl, hadvance, hcoupling, Or.inl ⟨dr, rfl, hallow⟩⟩
    · rw [hdraw]
      rw [hcoupling] at hd hp
      exact ⟨_, _, rfl, hadvance, hcoupling, Or.inr ⟨d, rfl, hd, hp⟩⟩
  | confidenceBound s =>
    simp only [result_map, result_pure]
    exact ⟨_, _, rfl, True.intro, rfl, Or.inl ⟨_, rfl, s.allows_propose⟩⟩
  | bandit s =>
    obtain ⟨dr, g, hselect, hallow⟩ := ArmSelector.select_spec current
      (w := (⟨s, rng, lines⟩ : Setting K (ArmSelector K (EpsilonGreedy K)))) h
    simp only [result_map, result_on, hselect]
    exact ⟨_, _, rfl, h, rfl, Or.inl ⟨dr, rfl, hallow⟩⟩

omit [Elementary K] [IsStrictOrderedRing K] in
/-- A report, taken or refused, leaves a scheme that can select, and its coupling. -/
theorem turning_update (y : X) (pair : Pair) (o : Outcome)
    {w : Setting K (Scheme K (EpsilonGreedy K))} (h : w.own.Turning) :
    (result (update EpsilonGreedy.policy y pair o) w).2.own.Turning ∧
      (result (update EpsilonGreedy.policy y pair o) w).2.own.coupling = w.own.coupling := by
  obtain ⟨own, rng, lines⟩ := w
  simp only at h
  unfold update
  rw [result_bind, result_own]
  simp only
  cases own with
  | uniform s =>
    simp only [result_bind, result_ofExcept]
    cases hs : (s.update pair : Except (Fault K) UniformChoice) with
    | error f => exact ⟨h, rfl⟩
    | ok t =>
      obtain ⟨dr, -, ht⟩ := Checks.bind_ok_iff.1 hs
      cases Checks.pure_ok_iff.1 ht
      exact ⟨True.intro, rfl⟩
  | roulette s =>
    simp only [result_bind, result_ofExcept]
    cases hs : s.update pair o with
    | error f => exact ⟨h, rfl⟩
    | ok t => exact Roulette.Turning.update h hs
  | segmented s =>
    simp only [result_bind, result_ofExcept]
    cases hs : s.update pair o with
    | error f => exact ⟨h, rfl⟩
    | ok t => exact Segmented.Turning.update h hs
  | confidenceBound s =>
    simp only [result_bind, result_ofExcept]
    cases hs : s.update pair o with
    | error f => exact ⟨h, rfl⟩
    | ok t =>
      obtain ⟨dr, -, ht⟩ := Checks.bind_ok_iff.1 hs
      cases Checks.pure_ok_iff.1 ht
      exact ⟨True.intro, rfl⟩
  | bandit s =>
    rw [result_on]
    rcases ArmSelector.update_cases y pair o
        (⟨s, rng, lines⟩ : Setting K (ArmSelector K (EpsilonGreedy K))) with
      ⟨f, hupdate⟩ | ⟨policy, hlen, hupdate⟩
    · rw [hupdate]
      exact ⟨h, rfl⟩
    · rw [hupdate]
      exact ⟨hlen.trans h, rfl⟩

omit [Elementary K] [IsStrictOrderedRing K] in
/-- A report about a legal pair is taken. -/
theorem update_ok (y : X) (o : Outcome) {w : Setting K (Scheme K (EpsilonGreedy K))}
    (h : w.own.Turning) {dr : Nat × Nat} (hdr : w.own.coupling.allows dr.1 dr.2 = true) :
    (result (update EpsilonGreedy.policy y (Pair.ofNat dr) o) w).1 = .ok () := by
  obtain ⟨own, rng, lines⟩ := w
  simp only at h hdr
  unfold update
  rw [result_bind, result_own]
  simp only
  cases own with
  | uniform s =>
    have hs : (s.update (Pair.ofNat dr) : Except (Fault K) UniformChoice) = .ok s := by
      rw [UniformChoice.update, Coupling.requireLegal_ofNat (c := s.coupling) hdr]
      rfl
    simp only [hs, result_bind, result_ofExcept, result_become]
  | roulette s =>
    obtain ⟨t, hs⟩ : ∃ t, s.update (Pair.ofNat dr) o = .ok t := by
      rw [Roulette.update, Coupling.requireLegal_ofNat (c := s.coupling) hdr]
      exact ⟨_, rfl⟩
    simp only [hs, result_bind, result_ofExcept, result_become]
  | segmented s =>
    obtain ⟨t, hs⟩ : ∃ t, s.update (Pair.ofNat dr) o = .ok t := by
      rw [Segmented.update, Coupling.requireLegal_ofNat (c := s.wheel.coupling) hdr]
      exact ⟨_, rfl⟩
    simp only [hs, result_bind, result_ofExcept, result_become]
  | confidenceBound s =>
    obtain ⟨t, hs⟩ : ∃ t, s.update (Pair.ofNat dr) o = .ok t := by
      rw [ConfidenceBound.update, Coupling.requireLegal_ofNat (c := s.coupling) hdr]
      exact ⟨_, rfl⟩
    simp only [hs, result_bind, result_ofExcept, result_become]
  | bandit s =>
    rw [result_on]
    exact ArmSelector.update_ok y o
      (w := (⟨s, rng, lines⟩ : Setting K (ArmSelector K (EpsilonGreedy K)))) h hdr

omit [Field K] [LinearOrder K] [Elementary K] [IsStrictOrderedRing K] in
/-- With a usable coupling no selection stops. -/
theorem not_strands {c : Coupling} (h : c.Usable) {r : Except (Fault K) Pair} :
    ¬Strands c r := by
  rintro ⟨d, -, hd, hnil⟩
  exact h.partners_ne_nil d hd hnil

/-! ## 4. Reachable schemes -/

omit [IsStrictOrderedRing K] in
/-- The schemes that a constructor makes and those that selections and reports lead to, whatever
is drawn and whatever is reported. -/
inductive Reachable (X : Type) [Solution K X] : Scheme K (EpsilonGreedy K) → Prop
  | uniform {numDestroy numRepair coupling? s}
      (made : (UniformChoice.make numDestroy numRepair coupling? : Except (Fault K) _) = .ok s) :
      Reachable X (.uniform s)
  | roulette {scores decay numDestroy numRepair coupling? floor s}
      (made : Roulette.make scores decay numDestroy numRepair coupling? floor = .ok s) :
      Reachable X (.roulette s)
  | segmented {scores decay length numDestroy numRepair coupling? floor verbose s}
      (made : Segmented.make scores decay length numDestroy numRepair coupling? floor verbose
        = .ok s) :
      Reachable X (.segmented s)
  | confidenceBound {scores alpha numDestroy numRepair coupling? s}
      (made : ConfidenceBound.make scores alpha numDestroy numRepair coupling? = .ok s) :
      Reachable X (.confidenceBound s)
  | bandit {scores numDestroy numRepair policy? coupling? s}
      (made : ArmSelector.make EpsilonGreedy.policy scores numDestroy numRepair policy? coupling?
        = .ok s) :
      Reachable X (.bandit s)
  | select (current : X) {w : Setting K (Scheme K (EpsilonGreedy K))} (h : Reachable X w.own) :
      Reachable X (result (select EpsilonGreedy.policy current) w).2.own
  | update (y : X) (pair : Pair) (o : Outcome) {w : Setting K (Scheme K (EpsilonGreedy K))}
      (h : Reachable X w.own) :
      Reachable X (result (update EpsilonGreedy.policy y pair o) w).2.own

omit [IsStrictOrderedRing K] in
/-- The same with edits of the wheels' couplings in between. -/
inductive Edited (X : Type) [Solution K X] : Scheme K (EpsilonGreedy K) → Prop
  | reached {s} (h : Reachable X s) : Edited X s
  | roulette {s t d r coupled} (h : Edited X (.roulette s)) (edit : s.setMark d r coupled = .ok t) :
      Edited X (.roulette t)
  | segmented {s t d r coupled} (h : Edited X (.segmented s))
      (edit : s.setMark d r coupled = .ok t) : Edited X (.segmented t)
  | select (current : X) {w : Setting K (Scheme K (EpsilonGreedy K))} (h : Edited X w.own) :
      Edited X (result (select EpsilonGreedy.policy current) w).2.own
  | update (y : X) (pair : Pair) (o : Outcome) {w : Setting K (Scheme K (EpsilonGreedy K))}
      (h : Edited X w.own) : Edited X (result (update EpsilonGreedy.policy y pair o) w).2.own

variable {s : Scheme K (EpsilonGreedy K)}

/-- What a selection leaves can select, and its coupling is as it was. -/
theorem turning_select (current : X) {w : Setting K (Scheme K (EpsilonGreedy K))}
    (h : w.own.Turning) :
    (result (select EpsilonGreedy.policy current) w).2.own.Turning ∧
      (result (select EpsilonGreedy.policy current) w).2.own.coupling = w.own.coupling := by
  obtain ⟨r, v, hselect, hv, hcoupling, -⟩ := select_cases current h
  rw [hselect]
  exact ⟨hv, hcoupling⟩

/-- **Every reachable scheme can select**, and its coupling is usable. -/
theorem Reachable.turning (h : Reachable X s) : s.Turning ∧ s.coupling.Usable := by
  induction h with
  | uniform made => exact ⟨True.intro, PairTable.usable _⟩
  | roulette made =>
    obtain ⟨hturning, husable, -, -⟩ := Roulette.turning_of_make made
    exact ⟨hturning, husable⟩
  | segmented made => exact Segmented.turning_of_make made
  | confidenceBound made => exact ⟨True.intro, PairTable.usable _⟩
  | bandit made => exact ⟨ArmSelector.turning_of_make made, PairTable.usable _⟩
  | select current h ih =>
    obtain ⟨hturning, hcoupling⟩ := turning_select current ih.1
    rw [hcoupling]
    exact ⟨hturning, ih.2⟩
  | update y pair o h ih =>
    obtain ⟨hturning, hcoupling⟩ := turning_update y pair o ih.1
    rw [hcoupling]
    exact ⟨hturning, ih.2⟩

/-- Every scheme that edits lead to can select, but for destroy operators without partners. -/
theorem Edited.turning (h : Edited X s) : s.Turning := by
  induction h with
  | reached h => exact h.turning.1
  | roulette h edit ih => exact Roulette.Turning.setMark ih edit
  | segmented h edit ih => exact Segmented.Turning.setMark ih edit
  | select current h ih => exact (turning_select current ih).1
  | update y pair o h ih => exact (turning_update y pair o ih).1

/-- **A reachable scheme proposes a legal pair.** -/
theorem Reachable.select_ok (current : X) {w : Setting K (Scheme K (EpsilonGreedy K))}
    (h : Reachable X w.own) :
    ∃ dr v, result (Scheme.select EpsilonGreedy.policy current) w = (.ok (Pair.ofNat dr), v) ∧
      w.own.coupling.allows dr.1 dr.2 = true := by
  obtain ⟨hturning, husable⟩ := h.turning
  obtain ⟨r, v, hselect, -, -, hr⟩ := select_cases current hturning
  rcases hr with ⟨dr, rfl, hallow⟩ | hr
  · exact ⟨dr, v, hselect, hallow⟩
  · exact absurd hr (not_strands husable)

end Scheme

end LargeNeighbourhood
