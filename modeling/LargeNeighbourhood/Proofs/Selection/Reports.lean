/-
# Reports are taken whole or not at all

A scheme takes a report when its pair lies inside the coupling and is marked there, and, where a
bandit policy wants contexts, when the candidate has one.  Any other report is refused, and the
setting is the one before it: the state of the scheme, the generator and the log.

Each scheme checks before it writes.  A report is one chain of checks followed by one replacement
of the state (`Act.result_exchange`, `ArmSelector.result_update`), so a refusal finds nothing
written; what the replacement changes is said by `Scheme.Touched`.

The policy of the bandit may be any that takes rewards for the arms it was prepared for, and these
are the only ones it is given.
-/
import Mathlib
import LargeNeighbourhood.Proofs.Acceptance.NewBest
import LargeNeighbourhood.Proofs.Selection.Policies

namespace LargeNeighbourhood

open Act

/-! ## 1. Legal pairs by the cells of the matrix -/

namespace Coupling

variable {K : Type} {c : Coupling} {p : Pair}

/-- The pair lies inside the matrix, and its cell there is marked. -/
structure Marks (c : Coupling) (p : Pair) : Prop where
  destroy : 0 ≤ p.destroy ∧ p.destroy < c.numDestroy
  repair : 0 ≤ p.repair ∧ p.repair < c.numRepair
  cell : c.cells[p.destroy.toNat * c.numRepair + p.repair.toNat]? = some true

/-- A relation by its cells. -/
theorem allows_iff {d r : Nat} :
    c.allows d r = true ↔ d < c.numDestroy ∧ r < c.numRepair ∧
      c.cells[d * c.numRepair + r]? = some true := by
  unfold allows
  by_cases h : d < c.numDestroy ∧ r < c.numRepair
  · rw [dif_pos h, Array.getElem?_eq_getElem (index_lt h), Option.some.injEq]
    exact ⟨fun hcell => ⟨h.1, h.2, hcell⟩, fun hall => hall.2.2⟩
  · rw [dif_neg h]
    exact ⟨fun hfalse => absurd hfalse (by simp), fun hall => absurd ⟨hall.1, hall.2.1⟩ h⟩

theorem marks_ofNat {dr : Nat × Nat} : c.Marks (Pair.ofNat dr) ↔ c.allows dr.1 dr.2 = true := by
  rw [allows_iff]
  constructor
  · rintro ⟨⟨-, hd⟩, ⟨-, hr⟩, hcell⟩
    exact ⟨Int.ofNat_lt.1 hd, Int.ofNat_lt.1 hr, hcell⟩
  · rintro ⟨hd, hr, hcell⟩
    exact ⟨⟨Int.natCast_nonneg _, Int.ofNat_lt.2 hd⟩, ⟨Int.natCast_nonneg _, Int.ofNat_lt.2 hr⟩,
      hcell⟩

theorem Marks.exists_ofNat (h : c.Marks p) :
    ∃ dr, p = Pair.ofNat dr ∧ c.allows dr.1 dr.2 = true := by
  have hp : p = Pair.ofNat (p.destroy.toNat, p.repair.toNat) := by
    rw [Pair.ofNat, Int.toNat_of_nonneg h.destroy.1, Int.toNat_of_nonneg h.repair.1]
  refine ⟨_, hp, marks_ofNat.1 ?_⟩
  rw [← hp]
  exact h

/-- A pair that is not marked is refused under its own name. -/
theorem requireLegal_of_not_marks (h : ¬c.Marks p) :
    (c.requireLegal p : Except (Fault K) (Nat × Nat))
      = .error (.forbiddenPair p.destroy p.repair) := by
  unfold requireLegal
  cases hlegal : c.legal? p with
  | none => rfl
  | some dr =>
    obtain ⟨rfl, hallow⟩ := legal?_eq_some hlegal
    exact absurd (marks_ofNat.2 hallow) h

end Coupling

/-! ## 2. Changes at one position -/

/-- Lists that differ at one position at most. -/
def AgreeBut {α : Type} (i : Nat) (xs ys : List α) : Prop :=
  ys.length = xs.length ∧ ∀ j, j ≠ i → ys[j]? = xs[j]?

theorem agreeBut_modify {α : Type} (i : Nat) (f : α → α) (xs : List α) :
    AgreeBut i xs (xs.modify i f) :=
  ⟨List.length_modify .., fun _ hne => List.getElem?_modify_ne _ _ (Ne.symm hne)⟩

theorem agreeBut_setIfInBounds {α : Type} (i : Nat) (x : α) (xs : Array α) :
    AgreeBut i xs.toList (xs.setIfInBounds i x).toList := by
  rw [Array.toList_setIfInBounds]
  exact ⟨List.length_set .., fun _ hne => List.getElem?_set_ne (Ne.symm hne)⟩

namespace EpsilonGreedy

variable {K : Type} [Scalar K]

/-- A reward sets the flag and changes the mean and the count of its arm. -/
theorem agreeBut_of_reward {arm : Nat} {reward : K} {context : List K}
    {w v : Setting K (EpsilonGreedy K)}
    (h : result (policy.update arm reward context) w = (.ok (), v)) :
    ∃ arms, AgreeBut arm w.own.arms arms ∧
      v = { w with own := { w.own with fit := true, arms } } := by
  rw [result_update, update] at h
  split at h
  · rename_i s hs
    split at hs
    · cases hs
      cases h
      exact ⟨_, agreeBut_modify _ _ _, rfl⟩
    · exact absurd hs (by simp)
  · exact absurd h (by simp)

end EpsilonGreedy

/-! ## 3. The checks of a bandit -/

namespace ArmSelector

variable {K π X : Type} [Solution K X]

/-- The policy wants no context, or the candidate has one. -/
def Informed (p : Policy K π) (s : ArmSelector K π) (y : X) : Prop :=
  p.contextual s.policy = true → (Solution.context? y : Option (List K)).isSome

theorem contextFor_of_informed {p : Policy K π} {s : ArmSelector K π} {y : X}
    (h : s.Informed p y) : ∃ context, s.contextFor p y = .ok context := by
  unfold contextFor Solution.context
  by_cases hwants : p.contextual s.policy = true
  · obtain ⟨context, hcontext⟩ := Option.isSome_iff_exists.1 (h hwants)
    exact ⟨context, by rw [if_pos hwants, hcontext]⟩
  · exact ⟨[], if_neg hwants⟩

theorem contextFor_of_not_informed {p : Policy K π} {s : ArmSelector K π} {y : X}
    (h : ¬s.Informed p y) : s.contextFor p y = .error .noContext := by
  obtain ⟨hwants, hnone⟩ := Classical.not_imp.1 h
  rw [Option.not_isSome_iff_eq_none] at hnone
  rw [contextFor, if_pos hwants, Solution.context, hnone]

end ArmSelector

/-! ## 4. What a report changes -/

namespace Scheme

variable {K π : Type}

/-- What a report about a legal pair may change: the two weights or sums of its operators; the
mean and the count in its cell, and the number of reports; and of a bandit what one reward for the
arm of the pair makes of the policy. -/
inductive Touched {X : Type} [Solution K X] (p : Policy K π) (y : X) (dr : Nat × Nat)
    (o : Outcome) : Setting K (Scheme K π) → Setting K (Scheme K π) → Prop
  | uniform {s : UniformChoice} {g lines} :
      Touched p y dr o ⟨.uniform s, g, lines⟩ ⟨.uniform s, g, lines⟩
  | roulette {s : Roulette K} {ds rs : List K} {g lines}
      (hd : AgreeBut dr.1 s.destroyWeights ds) (hr : AgreeBut dr.2 s.repairWeights rs) :
      Touched p y dr o ⟨.roulette s, g, lines⟩
        ⟨.roulette { s with destroyWeights := ds, repairWeights := rs }, g, lines⟩
  | segmented {s : Segmented K} {ds rs : List K} {g lines}
      (hd : AgreeBut dr.1 s.destroySums ds) (hr : AgreeBut dr.2 s.repairSums rs) :
      Touched p y dr o ⟨.segmented s, g, lines⟩
        ⟨.segmented { s with destroySums := ds, repairSums := rs }, g, lines⟩
  | confidenceBound {s : ConfidenceBound K} {means : Array K} {counts : Array Nat} {g lines}
      (hmeans : AgreeBut (s.table.cell dr) s.means.toList means.toList)
      (hcounts : AgreeBut (s.table.cell dr) s.counts.toList counts.toList) :
      Touched p y dr o ⟨.confidenceBound s, g, lines⟩
        ⟨.confidenceBound
          { s with
            iteration := s.iteration + 1
            means, counts
            size_means := hmeans.1.trans s.size_means
            size_counts := hcounts.1.trans s.size_counts }, g, lines⟩
  | bandit {s : ArmSelector K π} {arm : Nat} {context : List K} {g lines} {v : Setting K π}
      (harm : s.table.pair? arm = some dr) (hcontext : s.contextFor p y = .ok context)
      (htold : result (p.update arm (s.scores.of o) context) ⟨s.policy, g, lines⟩ = (.ok (), v)) :
      Touched p y dr o ⟨.bandit s, g, lines⟩
        ⟨.bandit { s with policy := v.own }, v.rng, v.lines⟩

variable {X : Type} [Solution K X]

/-- The policy of a bandit wants no context, or the candidate has one. -/
def Informed (p : Policy K π) (y : X) : Scheme K π → Prop
  | bandit s => s.Informed p y
  | _ => True

variable [Scalar K]

/-- A report about a pair that is not marked is refused before anything is written. -/
theorem update_of_not_marks (p : Policy K π) (y : X) {pair : Pair} (o : Outcome)
    {w : Setting K (Scheme K π)} (h : ¬w.own.coupling.Marks pair) :
    result (update p y pair o) w = (.error (.forbiddenPair pair.destroy pair.repair), w) := by
  obtain ⟨own, rng, lines⟩ := w
  unfold update
  rw [result_bind, result_own]
  simp only
  cases own with
  | uniform s =>
    rw [result_exchange, UniformChoice.update,
      Coupling.requireLegal_of_not_marks (c := s.coupling) h]
    rfl
  | roulette s =>
    rw [result_exchange, Roulette.update,
      Coupling.requireLegal_of_not_marks (c := s.coupling) h]
    rfl
  | segmented s =>
    rw [result_exchange, Segmented.update,
      Coupling.requireLegal_of_not_marks (c := s.wheel.coupling) h]
    rfl
  | confidenceBound s =>
    rw [result_exchange, ConfidenceBound.update,
      Coupling.requireLegal_of_not_marks (c := s.coupling) h]
    rfl
  | bandit s =>
    rw [result_on, ArmSelector.result_update, ArmSelector.armOfPair,
      Coupling.requireLegal_of_not_marks (c := s.coupling) h]
    rfl

/-- A bandit that lacks a context refuses before its policy is told. -/
theorem update_of_not_informed (p : Policy K π) {y : X} {dr : Nat × Nat} (o : Outcome)
    {w : Setting K (Scheme K π)} (hdr : w.own.coupling.allows dr.1 dr.2 = true)
    (h : ¬w.own.Informed p y) :
    result (update p y (Pair.ofNat dr) o) w = (.error .noContext, w) := by
  obtain ⟨own, rng, lines⟩ := w
  cases own with
  | bandit s =>
    unfold update
    rw [result_bind, result_own]
    simp only
    rw [result_on, ArmSelector.result_update, ArmSelector.armOfPair_ofNat (s := s) hdr,
      ArmSelector.contextFor_of_not_informed (s := s) h]
  | _ => exact absurd True.intro h

/-- **A report that passes the checks is taken**, and changes what belongs to its pair. -/
theorem exists_update_touched {p : Policy K π} (hp : p.Obliging) {y : X} {dr : Nat × Nat}
    (o : Outcome) {w : Setting K (Scheme K π)} (hdr : w.own.coupling.allows dr.1 dr.2 = true)
    (hinformed : w.own.Informed p y)
    (hprepared : ∀ s, w.own = .bandit s → p.Prepared s.table.size s.policy) :
    ∃ v, result (update p y (Pair.ofNat dr) o) w = (.ok (), v) ∧
      Touched p y dr o w v := by
  obtain ⟨own, rng, lines⟩ := w
  unfold update
  rw [result_bind, result_own]
  simp only
  cases own with
  | uniform s =>
    rw [result_exchange, UniformChoice.update, Coupling.requireLegal_ofNat (c := s.coupling) hdr]
    exact ⟨_, rfl, .uniform⟩
  | roulette s =>
    rw [result_exchange, Roulette.update, Coupling.requireLegal_ofNat (c := s.coupling) hdr]
    exact ⟨_, rfl, .roulette (agreeBut_modify _ _ _) (agreeBut_modify _ _ _)⟩
  | segmented s =>
    rw [result_exchange, Segmented.update,
      Coupling.requireLegal_ofNat (c := s.wheel.coupling) hdr]
    exact ⟨_, rfl, .segmented (agreeBut_modify _ _ _) (agreeBut_modify _ _ _)⟩
  | confidenceBound s =>
    rw [result_exchange, ConfidenceBound.update,
      Coupling.requireLegal_ofNat (c := s.coupling) hdr]
    exact ⟨_, rfl, .confidenceBound (agreeBut_setIfInBounds _ _ _) (agreeBut_setIfInBounds _ _ _)⟩
  | bandit s =>
    have hprep : p.Prepared s.table.size s.policy := hprepared s rfl
    obtain ⟨context, hcontext⟩ := ArmSelector.contextFor_of_informed (s := s) hinformed
    have htold := hp _ ⟨s.policy, rng, lines⟩ hprep (s.table.index dr)
      (PairTable.index_lt_size hdr) (s.scores.of o) context
    rw [result_on, ArmSelector.result_update, ArmSelector.armOfPair_ofNat (s := s) hdr, hcontext]
    simp only [ArmSelector.result_consult, htold]
    exact ⟨_, rfl, .bandit (PairTable.pair?_index hdr) hcontext (Prod.ext htold rfl)⟩

variable [Elementary K] {p : Policy K π}

/-- **A report is taken whole or not at all.**  A reachable scheme takes it exactly when its pair
is marked in the coupling and, for a policy that wants contexts, the candidate has one.  For want
of the one or the other it is refused, and the whole setting is as before.  A report that is taken
changes what belongs to its pair; of epsilon-greedy, which takes rewards for all its arms, the
flag and the estimate of the arm. -/
theorem update_all_or_nothing (hp : p.Obliging) {w : Setting K (Scheme K π)}
    (h : Arising p X w.own) (y : X) (pair : Pair) (o : Outcome) :
    ((result (update p y pair o) w).1 = .ok () ↔
      w.own.coupling.Marks pair ∧ w.own.Informed p y) ∧
    (¬w.own.coupling.Marks pair →
      result (update p y pair o) w = (.error (.forbiddenPair pair.destroy pair.repair), w) ∧
      (Fault.forbiddenPair pair.destroy pair.repair : Fault K).kind = .runtime) ∧
    (w.own.coupling.Marks pair → ¬w.own.Informed p y →
      result (update p y pair o) w = (.error .noContext, w) ∧
      (Fault.noContext : Fault K).kind = .invalidArgument) ∧
    (∀ v, result (update p y pair o) w = (.ok (), v) →
      ∃ dr, pair = Pair.ofNat dr ∧ Touched p y dr o w v) ∧
    (EpsilonGreedy.policy : Policy K (EpsilonGreedy K)).Obliging ∧
    ∀ {arm : Nat} {reward : K} {context : List K} {u v : Setting K (EpsilonGreedy K)},
      result (EpsilonGreedy.policy.update arm reward context) u = (.ok (), v) →
      ∃ arms, AgreeBut arm u.own.arms arms ∧
        v = { u with own := { u.own with fit := true, arms } } := by
  have hprepared : ∀ s, w.own = .bandit s → p.Prepared s.table.size s.policy := by
    intro s hs
    have hall := h.prepared
    rw [hs] at hall
    exact hall
  have taken : w.own.coupling.Marks pair → w.own.Informed p y →
      ∃ dr v, pair = Pair.ofNat dr ∧ result (update p y pair o) w = (.ok (), v) ∧
        Touched p y dr o w v := by
    intro hmarks hinformed
    obtain ⟨dr, rfl, hdr⟩ := hmarks.exists_ofNat
    obtain ⟨v, hv, htouched⟩ := exists_update_touched hp o hdr hinformed hprepared
    exact ⟨dr, v, rfl, hv, htouched⟩
  have forbidden : ¬w.own.coupling.Marks pair →
      result (update p y pair o) w = (.error (.forbiddenPair pair.destroy pair.repair), w) :=
    update_of_not_marks p y o
  have unsighted : w.own.coupling.Marks pair → ¬w.own.Informed p y →
      result (update p y pair o) w = (.error .noContext, w) := by
    intro hmarks hinformed
    obtain ⟨dr, rfl, hdr⟩ := hmarks.exists_ofNat
    exact update_of_not_informed p o hdr hinformed
  -- A report that is taken fails neither check.
  have passed : ∀ v, result (update p y pair o) w = (.ok (), v) →
      w.own.coupling.Marks pair ∧ w.own.Informed p y := by
    intro v hv
    have hmarks : w.own.coupling.Marks pair := by
      by_contra hmarks
      rw [forbidden hmarks] at hv
      exact absurd hv (by simp)
    refine ⟨hmarks, ?_⟩
    by_contra hinformed
    rw [unsighted hmarks hinformed] at hv
    exact absurd hv (by simp)
  refine ⟨⟨fun hok => passed _ (Prod.ext hok rfl), ?_⟩, fun hmarks => ⟨forbidden hmarks, rfl⟩,
    fun hmarks hinformed => ⟨unsighted hmarks hinformed, rfl⟩, ?_,
    EpsilonGreedy.policy_obliging, EpsilonGreedy.agreeBut_of_reward⟩
  · rintro ⟨hmarks, hinformed⟩
    obtain ⟨dr, v, -, hv, -⟩ := taken hmarks hinformed
    rw [hv]
  · intro v hv
    obtain ⟨hmarks, hinformed⟩ := passed v hv
    obtain ⟨dr, v', hpair, hv', htouched⟩ := taken hmarks hinformed
    rw [hv'] at hv
    cases hv
    exact ⟨dr, hpair, htouched⟩

end Scheme

namespace Countdown

/-- A solution that may describe itself by its objective. -/
structure Described where
  height : ℝ
  described : Bool

noncomputable instance : Solution ℝ Described where
  objective := Described.height
  context? := fun x => if x.described then some [x.height] else none

/-- A policy that wants contexts and counts the rewards of each arm. -/
def tally : Policy ℝ (List Nat) where
  reset := fun n _ => List.replicate n 0
  contextual := fun _ => true
  fit := fun counts => counts.any fun n => decide (0 < n)
  predict := fun _ => return 0
  update := fun arm _ _ => do
    let counts ← Act.own
    Act.become (← Act.ofExcept (
      if arm < counts.length then .ok (counts.modify arm (· + 1)) else .error (.unknownArm arm)))

theorem result_tally (arm : Nat) (reward : ℝ) (context : List ℝ) (w : Setting ℝ (List Nat)) :
    result (tally.update arm reward context) w =
      if arm < w.own.length then (.ok (), { w with own := w.own.modify arm (· + 1) })
      else (.error (.unknownArm arm), w) := by
  simp only [tally, result_bind, result_own, result_ofExcept]
  by_cases h : arm < w.own.length
  · rw [if_pos h, if_pos h]
    rfl
  · rw [if_neg h, if_neg h]

theorem tally_obliging : tally.Obliging := by
  have length : ∀ {n : Nat} {s : List Nat}, tally.Prepared n s → s.length = n := by
    intro n s h
    induction h with
    | reset s => exact List.length_replicate
    | predict context h ih => exact ih
    | update harm reward context h ih =>
      rw [result_tally]
      split
      · exact (List.length_modify ..).trans ih
      · exact ih
  intro n w h arm harm reward context
  rw [result_tally, if_pos (by rwa [length h])]

/-- A bandit with this policy for one destroy and two repair operators. -/
noncomputable def tallied : ArmSelector ℝ (List Nat) where
  scores := ⟨3, 2, 1, 0, []⟩
  table := .ofCoupling (Coupling.all 1 2) ⟨by decide, by decide, by decide⟩
  policy := [0, 0]

theorem make_tallied : ArmSelector.make tally [3, 2, 1, 0] 1 2 (some []) none = .ok tallied := by
  have hscores : Scores.ofList ([3, 2, 1, 0] : List ℝ) = .ok ⟨3, 2, 1, 0, []⟩ := by
    norm_num [Scores.ofList]
  have hcoupling : ∃ u, (Coupling.forScheme 1 2 none : Except (Fault ℝ) _)
      = .ok ⟨Coupling.all 1 2, u⟩ := ⟨_, rfl⟩
  obtain ⟨u, hu⟩ := hcoupling
  rw [ArmSelector.make, hu]
  simp only [Checks.bind_ok_iff]
  exact ⟨_, rfl, _, hscores, rfl⟩

end Countdown

open Countdown in
/-- The bandit takes a report about its second pair from a candidate with a context, and refuses
one from a candidate without, and one about a pair with a negative index. -/
theorem update_tallied :
    let w : Setting ℝ (Scheme ℝ (List Nat)) := ⟨.bandit tallied, ⟨0, 1⟩, #[]⟩
    Scheme.Arising tally Described w.own ∧ tally.Obliging ∧
    (result (Scheme.update tally (⟨5, true⟩ : Described) ⟨0, 1⟩ .best) w).1 = .ok () ∧
    result (Scheme.update tally (⟨5, false⟩ : Described) ⟨0, 1⟩ .best) w
      = (.error .noContext, w) ∧
    result (Scheme.update tally (⟨5, true⟩ : Described) ⟨0, -1⟩ .best) w
      = (.error (.forbiddenPair 0 (-1)), w) := by
  intro w
  have hw : Scheme.Arising tally Described w.own := .bandit make_tallied
  have hmarks : w.own.coupling.Marks ⟨0, 1⟩ := ⟨by decide, by decide, by decide⟩
  obtain ⟨hiff, -⟩ := Scheme.update_all_or_nothing tally_obliging hw ⟨5, true⟩ ⟨0, 1⟩ .best
  obtain ⟨-, -, hunsighted, -⟩ :=
    Scheme.update_all_or_nothing tally_obliging hw ⟨5, false⟩ ⟨0, 1⟩ .best
  obtain ⟨-, hforbidden, -⟩ :=
    Scheme.update_all_or_nothing tally_obliging hw ⟨5, true⟩ ⟨0, -1⟩ .best
  refine ⟨hw, tally_obliging, hiff.2 ⟨hmarks, fun _ => rfl⟩, ?_, ?_⟩
  · refine (hunsighted hmarks fun hinformed => ?_).1
    exact absurd (hinformed rfl) (by decide)
  · exact (hforbidden fun hneg => absurd hneg.repair.1 (by decide)).1

end LargeNeighbourhood
