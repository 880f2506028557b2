/-
# Arms and legal pairs

A bandit knows its operators as arms.  From an arm it goes to a pair through the table of the legal
pairs, and back through the cells of all pairs.  The two ways are inverse to each other and keep the
order (`PairTable.numbering`), since both were laid out by one walk over the legal pairs.  Neither
can leave its range unnoticed: an arm beyond the table is refused, and a cell is read only after its
pair was found legal, so the mark of the other cells is never taken for an arm.

Selections and reports change the policy and nothing else of a bandit (`After.same`), so all of this
is true of it at any time.  The policy was prepared for the arms there are; epsilon-greedy then
plays no other arm and takes a reward for every arm it may be told of.
-/
import Mathlib
import LargeNeighbourhood.Proofs.Selection.Reports
import LargeNeighbourhood.Proofs.Selection.Sweep

namespace LargeNeighbourhood

open Act

namespace ArmSelector

variable {K π X : Type} [Solution K X] {p : Policy K π} {s t : ArmSelector K π}

/-! ## 1. Faults -/

theorem pairOfArm_of_lt {arm : Nat} (h : arm < s.numArms) :
    s.pairOfArm arm = .ok (s.table.numbering ⟨arm, h⟩).val := by
  rw [pairOfArm, s.table.pair?_eq_numbering ⟨arm, h⟩]

/-- An arm is refused exactly when there is no such arm. -/
theorem pairOfArm_error_iff {arm : Nat} {f : Fault K} :
    s.pairOfArm arm = .error f ↔ s.numArms ≤ arm ∧ f = .armOutside arm s.numArms := by
  constructor
  · intro h
    have hge : s.numArms ≤ arm := by
      by_contra hlt
      rw [pairOfArm_of_lt (not_le.1 hlt)] at h
      exact absurd h (by simp)
    have hnone : s.table.pair? arm = none := Array.getElem?_eq_none hge
    rw [pairOfArm, hnone] at h
    exact ⟨hge, (Except.error.inj h).symm⟩
  · rintro ⟨hge, rfl⟩
    have hnone : s.table.pair? arm = none := Array.getElem?_eq_none hge
    rw [pairOfArm, hnone]

/-- A pair is refused exactly when it is not marked in the coupling. -/
theorem armOfPair_error_iff {pair : Pair} {f : Fault K} :
    s.armOfPair pair = .error f ↔
      ¬s.coupling.Marks pair ∧ f = .forbiddenPair pair.destroy pair.repair := by
  by_cases hmarks : s.coupling.Marks pair
  · obtain ⟨dr, rfl, hallow⟩ := hmarks.exists_ofNat
    rw [armOfPair_ofNat hallow]
    simp [hmarks]
  · rw [armOfPair, Coupling.requireLegal_of_not_marks hmarks]
    simp only [hmarks, not_false_eq_true, true_and]
    exact ⟨fun h => (Except.error.inj h).symm, fun h => congrArg Except.error h.symm⟩

/-! ## 2. Any selections and reports -/

/-- What selections and reports make of a bandit, in any order, whether they succeed or fail. -/
inductive After (p : Policy K π) (X : Type) [Solution K X] (s : ArmSelector K π) :
    ArmSelector K π → Prop
  | refl : After p X s s
  | select (current : X) {w : Setting K (ArmSelector K π)} (h : After p X s w.own) :
      After p X s (result (select p current) w).2.own
  | update (y : X) (pair : Pair) (o : Outcome) {w : Setting K (ArmSelector K π)}
      (h : After p X s w.own) : After p X s (result (update p y pair o) w).2.own

theorem table_select (current : X) (w : Setting K (ArmSelector K π)) :
    (result (select p current) w).2.own.table = w.own.table := by
  unfold select
  rw [result_bind, result_own]
  simp only
  split
  · rw [result_bind, result_ofExcept]
    cases w.own.contextFor p current with
    | error f => rfl
    | ok context =>
      simp only
      rw [result_bind, result_consult]
      generalize result (p.predict context) ⟨w.own.policy, w.rng, w.lines⟩ = asked
      obtain ⟨_ | arm, v⟩ := asked
      · rfl
      · simp only [result_ofExcept]
  · rw [own_draw]

theorem table_update (y : X) (pair : Pair) (o : Outcome) (w : Setting K (ArmSelector K π)) :
    (result (update p y pair o) w).2.own.table = w.own.table := by
  rw [result_update]
  cases w.own.armOfPair pair with
  | error f => rfl
  | ok arm =>
    cases w.own.contextFor p y with
    | error f => rfl
    | ok context => rfl

/-- **The arms of a bandit stay what they are**, and its policy hears of no others. -/
theorem After.same (h : After p X s t) (hs : p.Prepared s.numArms s.policy) :
    t.table = s.table ∧ p.Prepared t.numArms t.policy := by
  induction h with
  | refl => exact ⟨rfl, hs⟩
  | select current h ih =>
    rw [table_select]
    exact ⟨ih.1, prepared_select current ih.2⟩
  | update y pair o h ih =>
    rw [table_update]
    exact ⟨ih.1, prepared_update y pair o ih.2⟩

/-! ## 3. A new bandit -/

/-- What the constructor makes of its arguments. -/
theorem of_make [Scalar K] {scores : List K} {numDestroy numRepair : Nat} {policy : π}
    {coupling? : Option Coupling}
    (h : make p scores numDestroy numRepair (some policy) coupling? = .ok s) :
    s.coupling = coupling?.getD (.all numDestroy numRepair) ∧ s.coupling.Usable ∧
      s.policy = p.reset s.numArms policy := by
  unfold make at h
  obtain ⟨⟨c, usable⟩, hcoupling, h⟩ := Checks.bind_ok_iff.1 h
  obtain ⟨scores', -, h⟩ := Checks.bind_ok_iff.1 h
  cases Checks.pure_ok_iff.1 h
  exact ⟨Coupling.forScheme_eq hcoupling, usable, rfl⟩

/-! ## 4. Arms and pairs -/

/-- An epsilon-greedy policy that was prepared for the arms of a bandit plays one of them, and takes a
reward for every arm of a pair. -/
theorem prepared_plays [Scalar K] {q : EpsilonGreedy K}
    (hq : EpsilonGreedy.policy.Prepared s.numArms q) :
    (∀ g, ∃ arm dr, (q.predict g : Except (Fault K) ℕ × Generator).1 = .ok arm ∧
      s.pairOfArm arm = .ok dr ∧ s.coupling.allows dr.1 dr.2 = true) ∧
    ∀ pair arm reward, s.armOfPair pair = .ok arm → ∃ q', q.update arm reward = .ok q' := by
  have hlength : q.arms.length = s.numArms := EpsilonGreedy.length_of_prepared hq
  refine ⟨fun g => ?_, fun pair arm reward harm => ?_⟩
  · have hne : q.arms ≠ [] := by
      rw [← List.length_pos_iff, hlength]
      exact s.table.size_pos
    obtain ⟨arm, hpredict, hlt⟩ := EpsilonGreedy.predict_ok hne g
    rw [hlength] at hlt
    exact ⟨arm, _, hpredict, pairOfArm_of_lt hlt, (s.table.numbering ⟨arm, hlt⟩).property⟩
  · obtain ⟨dr, -, hallow, rfl⟩ := exists_of_armOfPair harm
    have hlt : s.table.index dr < q.arms.length := by
      rw [hlength]
      exact PairTable.index_lt_size hallow
    exact ⟨_, if_pos hlt⟩

/-- **Arms number the legal pairs.**  However a bandit was used, its arms and the legal pairs of the
coupling it was made with are in bijection, row by row; the two conversions are that bijection and its
inverse.  An arm is refused exactly when there is no such arm, and a pair exactly when it lies outside
the matrix or is not marked there.  The cells of all pairs hold the arms of the legal ones and minus
one for the others, and minus one is never handed out.  The policy was reset for the arms there are and
is rewarded for no others; an epsilon-greedy one plays no others, and takes these rewards. -/
theorem arms_number_legal_pairs [Scalar K] {scores : List K} {numDestroy numRepair : ℕ} {policy : π}
    {coupling? : Option Coupling}
    (made : make p scores numDestroy numRepair (some policy) coupling? = .ok s)
    (h : After p X s t) :
    t.coupling = coupling?.getD (.all numDestroy numRepair) ∧
    (∃ e : Fin t.numArms ≃ { dr : ℕ × ℕ // t.coupling.allows dr.1 dr.2 = true },
      (∀ arm : Fin t.numArms, t.pairOfArm arm = .ok (e arm).val) ∧
      (∀ dr, t.armOfPair (Pair.ofNat dr.val) = .ok (e.symm dr).val) ∧
      ∀ a b, Coupling.Earlier (e a).val (e b).val ↔ a < b) ∧
    (∀ arm f, t.pairOfArm arm = .error f ↔ t.numArms ≤ arm ∧ f = .armOutside arm t.numArms) ∧
    (∀ pair f, t.armOfPair pair = .error f ↔
      ¬t.coupling.Marks pair ∧ f = .forbiddenPair pair.destroy pair.repair) ∧
    (∀ (arm : ℕ) (pair : Pair), (Fault.armOutside arm t.numArms : Fault K).kind = .runtime ∧
      (Fault.forbiddenPair pair.destroy pair.repair : Fault K).kind = .runtime) ∧
    (∀ pair arm, t.armOfPair pair = .ok arm → arm < t.numArms ∧
      t.arms[pair.destroy.toNat * t.coupling.numRepair + pair.repair.toNat]? = some (arm : ℤ)) ∧
    (∀ d < t.coupling.numDestroy, ∀ r < t.coupling.numRepair,
      t.coupling.allows d r = false → t.arms[d * t.coupling.numRepair + r]? = some (-1)) ∧
    t.arms.size = t.coupling.numDestroy * t.coupling.numRepair ∧
    (∀ x ∈ t.arms, x = -1 ∨ 0 ≤ x ∧ x < t.numArms) ∧
    s.policy = p.reset s.numArms policy ∧ t.numArms = s.numArms ∧
    p.Prepared t.numArms t.policy ∧
    ∀ q : EpsilonGreedy K, EpsilonGreedy.policy.Prepared t.numArms q →
      (∀ g, ∃ arm dr, (q.predict g : Except (Fault K) ℕ × Generator).1 = .ok arm ∧
        t.pairOfArm arm = .ok dr ∧ t.coupling.allows dr.1 dr.2 = true) ∧
      ∀ pair arm reward, t.armOfPair pair = .ok arm → ∃ q', q.update arm reward = .ok q' := by
  obtain ⟨hcoupling, -, hreset⟩ := of_make made
  have hprepared : p.Prepared s.numArms s.policy := by
    rw [hreset]
    exact .reset policy
  obtain ⟨htable, hheard⟩ := h.same hprepared
  refine ⟨?_, ⟨t.table.numbering, fun arm => pairOfArm_of_lt arm.isLt,
    fun dr => armOfPair_ofNat dr.property, t.table.earlier_numbering_iff⟩,
    fun arm f => pairOfArm_error_iff, fun pair f => armOfPair_error_iff,
    fun arm pair => ⟨rfl, rfl⟩, fun pair arm harm => ?_, fun d hd r hr hnot => ?_, ?_, ?_, hreset,
    ?_, hheard, fun q hq => prepared_plays hq⟩
  · rw [← hcoupling, coupling, htable, coupling]
  · obtain ⟨dr, rfl, hallow, rfl⟩ := exists_of_armOfPair harm
    rw [t.arms_eq]
    exact ⟨PairTable.index_lt_size hallow, t.table.getElem?_numbers (PairTable.pair?_index hallow)⟩
  · rw [t.arms_eq]
    exact t.table.getElem?_numbers_of_not_allows hd hr hnot
  · rw [t.arms_eq]
    exact t.table.size_numbers
  · rw [t.arms_eq]
    exact fun x hx => PairTable.mem_numbers hx
  · rw [numArms, htable, numArms]

end ArmSelector

namespace Countdown

/-- A new bandit that always explores, for two operators of each kind, of which the first two may not
be paired. -/
noncomputable def banditSparse : ArmSelector ℝ (EpsilonGreedy ℝ) where
  scores := ⟨3, 2, 1, 0, []⟩
  table := .ofCoupling sparse usable_sparse
  policy := EpsilonGreedy.reset 3 { epsilon := 1 }

theorem make_banditSparse :
    ArmSelector.make EpsilonGreedy.policy ([3, 2, 1, 0] : List ℝ) 2 2 (some { epsilon := 1 })
      (some sparse) = .ok banditSparse := by
  have hcoupling : Coupling.forScheme 2 2 (some sparse)
      = (.ok ⟨sparse, usable_sparse⟩ : Except (Fault ℝ) _) := rfl
  rw [ArmSelector.make, hcoupling, scores_two]
  rfl

end Countdown

open Countdown in
/-- Also after a refused report the three legal pairs are the arms, the cell of the first pair is
marked, and there is neither a fourth arm nor an arm of a pair with a negative index; and the policy,
whatever it draws, plays an arm of a legal pair. -/
theorem arms_number_legal_pairs_sparse :
    let w : Setting ℝ (ArmSelector ℝ (EpsilonGreedy ℝ)) := ⟨banditSparse, ⟨0, 1⟩, #[]⟩
    let t := (result (ArmSelector.update EpsilonGreedy.policy (⟨5⟩ : Level ℝ) ⟨0, 0⟩ .best) w).2.own
    ArmSelector.make EpsilonGreedy.policy ([3, 2, 1, 0] : List ℝ) 2 2 (some { epsilon := 1 })
      (some sparse) = .ok banditSparse ∧
    ArmSelector.After EpsilonGreedy.policy (Level ℝ) banditSparse t ∧
    t.coupling = sparse ∧ t.numArms = 3 ∧ t.arms = #[-1, 0, 1, 2] ∧
    (∃ e : Fin t.numArms ≃ { dr : ℕ × ℕ // t.coupling.allows dr.1 dr.2 = true },
      ∀ a b, Coupling.Earlier (e a).val (e b).val ↔ a < b) ∧
    t.pairOfArm 3 = .error (.armOutside 3 3) ∧
    t.armOfPair ⟨1, -1⟩ = .error (.forbiddenPair 1 (-1)) ∧
    ∀ g, ∃ arm dr, (t.policy.predict g : Except (Fault ℝ) ℕ × Generator).1 = .ok arm ∧
      t.pairOfArm arm = .ok dr ∧ t.coupling.allows dr.1 dr.2 = true := by
  intro w t
  have hafter : ArmSelector.After EpsilonGreedy.policy (Level ℝ) banditSparse t :=
    .update _ _ _ .refl
  obtain ⟨hcoupling, ⟨e, -, -, horder⟩, hnone, hrefused, -, -, -, -, -, -, hsize, hprepared, hplays⟩ :=
    ArmSelector.arms_number_legal_pairs make_banditSparse hafter
  have hthree : t.numArms = 3 := hsize.trans rfl
  refine ⟨make_banditSparse, hafter, hcoupling, hthree, ?_, ⟨e, horder⟩, ?_, ?_,
    (hplays t.policy hprepared).1⟩
  · rw [t.arms_eq]
    rfl
  · exact (hnone 3 _).2 ⟨hthree.le, by rw [hthree]⟩
  · exact (hrefused ⟨1, -1⟩ _).2 ⟨fun hmarks => absurd hmarks.repair.1 (by decide), rfl⟩

end LargeNeighbourhood
