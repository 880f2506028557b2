/-
# Criteria in use

A criterion is reachable (`Criterion.Reachable`) if a constructor made it and decisions changed it
since, about any solutions and with any draws, those that failed among them.

Decisions leave the parameters alone, so a reachable criterion is in the ranges of its parameters.
What moves stays between its end and its start (`Criterion.Bounded`): a step of a schedule never
leads up, and the floor under it is the end.  `Reachable.inRange_bounded` says both.

The section before that computes a decision for each kind of criterion, over any scalars, so that
no later proof opens `Criterion.accept`.
-/
import Mathlib
import LargeNeighbourhood.Proofs.Acceptance.Ranges

namespace LargeNeighbourhood

open Act

/-! ## 1. Single decisions -/

section Decisions

variable {K : Type} [Scalar K] [Elementary K] {best current candidate : K} {rng : Generator}
  {lines : Array (Line K)}

namespace Criterion

theorem accept_hillClimbing :
    result (accept best current candidate) ⟨hillClimbing, rng, lines⟩
      = (.ok (HillClimbing.accepts current candidate), ⟨hillClimbing, rng, lines⟩) := rfl

theorem accept_randomWalk :
    result (accept best current candidate) ⟨randomWalk, rng, lines⟩
      = (.ok true, ⟨randomWalk, rng, lines⟩) := rfl

theorem accept_lateAcceptance (c : LateAcceptance K) :
    result (accept best current candidate) ⟨lateAcceptance c, rng, lines⟩
      = (.ok (c.accept current candidate).1,
        ⟨lateAcceptance (c.accept current candidate).2, rng, lines⟩) := rfl

theorem accept_simulatedAnnealing (c : SimulatedAnnealing K) :
    result (accept best current candidate) ⟨simulatedAnnealing c, rng, lines⟩
      = ((result (SimulatedAnnealing.accept current candidate) ⟨c, rng, lines⟩).1,
        ⟨simulatedAnnealing (result (SimulatedAnnealing.accept current candidate)
            ⟨c, rng, lines⟩).2.own,
          (result (SimulatedAnnealing.accept current candidate) ⟨c, rng, lines⟩).2.rng,
          (result (SimulatedAnnealing.accept current candidate) ⟨c, rng, lines⟩).2.lines⟩) := rfl

theorem accept_recordToRecord (c : RecordToRecord K) :
    result (accept best current candidate) ⟨recordToRecord c, rng, lines⟩
      = (.ok (c.accept (candidate - best)).1,
        ⟨recordToRecord (c.accept (candidate - best)).2, rng, lines⟩) := rfl

theorem accept_thresholdAcceptance (c : RecordToRecord K) :
    result (accept best current candidate) ⟨thresholdAcceptance c, rng, lines⟩
      = (.ok (c.accept (candidate - current)).1,
        ⟨thresholdAcceptance (c.accept (candidate - current)).2, rng, lines⟩) := rfl

theorem accept_randomAccept (c : RandomAccept K) :
    result (accept best current candidate) ⟨randomAccept c, rng, lines⟩
      = (.ok (c.accept current candidate rng).1.1,
        ⟨randomAccept (c.accept current candidate rng).1.2,
          (c.accept current candidate rng).2, lines⟩) := rfl

theorem accept_greatDeluge (c : GreatDeluge K) :
    result (accept best current candidate) ⟨greatDeluge c, rng, lines⟩
      = (.ok (c.accept best candidate).1,
        ⟨greatDeluge (c.accept best candidate).2, rng, lines⟩) := rfl

theorem accept_nonLinearGreatDeluge (c : NonLinearGreatDeluge K) :
    result (accept best current candidate) ⟨nonLinearGreatDeluge c, rng, lines⟩
      = match c.accept best current candidate with
        | .ok d => (.ok d.1, ⟨nonLinearGreatDeluge d.2, rng, lines⟩)
        | .error f => (.error f, ⟨nonLinearGreatDeluge c, rng, lines⟩) := by
  unfold accept
  simp only [result_bind, result_own, result_ofExcept]
  cases c.accept best current candidate with
  | error f => rfl
  | ok d => rfl

theorem accept_movingAverage (c : MovingAverage K) :
    result (accept best current candidate) ⟨movingAverage c, rng, lines⟩
      = (.ok (c.accept candidate).1, ⟨movingAverage (c.accept candidate).2, rng, lines⟩) := rfl

/-- Only the non-linear great deluge can fail, and no criterion becomes one. -/
theorem exists_accept (best current candidate : K) {w : Setting K (Criterion K)}
    (hw : ∀ c, w.own ≠ nonLinearGreatDeluge c) :
    ∃ yes v, result (accept best current candidate) w = (.ok yes, v) ∧
      ∀ c, v.own ≠ nonLinearGreatDeluge c := by
  obtain ⟨own, rng, lines⟩ := w
  cases own with
  | simulatedAnnealing c =>
    obtain ⟨said, hc⟩ := SimulatedAnnealing.result_accept current candidate
      (⟨c, rng, lines⟩ : Setting K (SimulatedAnnealing K))
    rw [accept_simulatedAnnealing, hc]
    exact ⟨_, _, rfl, fun _ => nofun⟩
  | nonLinearGreatDeluge c => exact absurd rfl (hw c)
  | _ => exact ⟨_, _, rfl, fun _ => nofun⟩

end Criterion

/-! ## 2. What a decision keeps of a single criterion -/

omit [Elementary K] in
theorem GreatDeluge.InRange.accept {c : GreatDeluge K} (h : c.InRange) :
    (c.accept best candidate).2.InRange :=
  ⟨h.one_lt_alpha, h.beta_pos, h.beta_lt⟩

theorem NonLinearGreatDeluge.InRange.accept {c : NonLinearGreatDeluge K} (h : c.InRange)
    {d : Bool × NonLinearGreatDeluge K} (hd : c.accept best current candidate = .ok d) :
    d.2.InRange := by
  unfold NonLinearGreatDeluge.accept at hd
  obtain ⟨level, -, hd⟩ := Checks.bind_ok_iff.1 hd
  cases Checks.pure_ok_iff.1 hd
  exact ⟨⟨h.deluge.one_lt_alpha, h.deluge.beta_pos, h.deluge.beta_lt⟩, h.gamma_pos, h.delta_pos⟩

omit [Elementary K] in
theorem RandomAccept.accept_snd (c : RandomAccept K) (current candidate : K) (g : Generator) :
    (c.accept current candidate g).1.2 = c.advance := by
  unfold accept
  split
  · rfl
  · rfl

end Decisions

variable {K : Type} [Field K] [LinearOrder K] [IsStrictOrderedRing K]

/-- A step of a schedule does not lead up. -/
theorem Schedule.next_le {m : Schedule} {floor x step start : K} (hfloor : 0 ≤ floor)
    (hfinish : floor ≤ start) (hx : floor ≤ x) (hstart : x ≤ start) (hstep : m.Admits step) :
    m.next floor x step ≤ start := by
  unfold next
  rw [Scalar.upper_eq_max]
  refine max_le hfinish (le_trans ?_ hstart)
  cases m with
  | linear => exact sub_le_self x hstep.nonneg
  | exponential => exact mul_le_of_le_one_right (hfloor.trans hx) (hstep.shrinks rfl).2

/-! ## 3. Reachable criteria -/

namespace Criterion

/-- A criterion in whatever state decisions brought it to. -/
inductive Reachable [Elementary K] : Criterion K → Prop
  | fresh {c} (made : c.Fresh) : Reachable c
  | decided {w : Setting K (Criterion K)} (best current candidate : K)
      (before : Reachable w.own) :
      Reachable (result (accept best current candidate) w).2.own

/-- What moves lies between its end and its start. -/
def Bounded : Criterion K → Prop
  | simulatedAnnealing c => c.finish ≤ c.temperature ∧ c.temperature ≤ c.start
  | recordToRecord c => c.finish ≤ c.threshold ∧ c.threshold ≤ c.start
  | thresholdAcceptance c => c.finish ≤ c.threshold ∧ c.threshold ≤ c.start
  | randomAccept c => c.finish ≤ c.probability ∧ c.probability ≤ c.start
  | _ => True

variable [Elementary K] {c : Criterion K}

/-- What moves begins at its start. -/
theorem bounded_of_fresh (h : c.Fresh) : c.Bounded := by
  have hrange := inRange_of_fresh h
  cases h with
  | simulatedAnnealing made =>
    simp only [SimulatedAnnealing.make, Checks.guard_ok_iff, Checks.pure_ok_iff] at made
    obtain ⟨-, -, -, rfl⟩ := made
    exact ⟨SimulatedAnnealing.InRange.finish_le hrange, le_refl _⟩
  | annealingFitted made =>
    obtain ⟨start, step, hmake⟩ := SimulatedAnnealing.make_of_fit made
    simp only [SimulatedAnnealing.make, Checks.guard_ok_iff, Checks.pure_ok_iff] at hmake
    obtain ⟨-, -, -, rfl⟩ := hmake
    exact ⟨SimulatedAnnealing.InRange.finish_le hrange, le_refl _⟩
  | recordToRecord made =>
    simp only [RecordToRecord.make, Checks.guard_ok_iff, Checks.pure_ok_iff] at made
    obtain ⟨-, -, -, rfl⟩ := made
    exact ⟨RecordToRecord.InRange.finish_le hrange, le_refl _⟩
  | thresholdAcceptance made =>
    simp only [RecordToRecord.make, Checks.guard_ok_iff, Checks.pure_ok_iff] at made
    obtain ⟨-, -, -, rfl⟩ := made
    exact ⟨RecordToRecord.InRange.finish_le hrange, le_refl _⟩
  | randomAccept made =>
    simp only [RandomAccept.make, Checks.guard_ok_iff, Checks.pure_ok_iff] at made
    obtain ⟨-, -, -, rfl⟩ := made
    exact ⟨RandomAccept.InRange.finish_le hrange, le_refl _⟩
  | _ => exact True.intro

/-- **A decision keeps a criterion in its ranges and bounds**, also one that fails. -/
theorem inRange_bounded_accept (best current candidate : K) {w : Setting K (Criterion K)}
    (hr : w.own.InRange) (hb : w.own.Bounded) :
    (result (accept best current candidate) w).2.own.InRange ∧
      (result (accept best current candidate) w).2.own.Bounded := by
  obtain ⟨own, rng, lines⟩ := w
  simp only at hr hb
  cases own with
  | hillClimbing => exact ⟨True.intro, True.intro⟩
  | randomWalk => exact ⟨True.intro, True.intro⟩
  | lateAcceptance c => exact ⟨True.intro, True.intro⟩
  | simulatedAnnealing c =>
    obtain ⟨said, hc⟩ := SimulatedAnnealing.result_accept current candidate
      (⟨c, rng, lines⟩ : Setting K (SimulatedAnnealing K))
    rw [accept_simulatedAnnealing, hc]
    obtain ⟨hpos, hle, hstep⟩ := hr
    exact ⟨⟨hpos, hle, hstep⟩, Schedule.le_next _ _ _ _,
      Schedule.next_le hpos.le hle hb.1 hb.2 hstep⟩
  | recordToRecord c =>
    rw [accept_recordToRecord]
    obtain ⟨hnonneg, hle, hstep⟩ := hr
    exact ⟨⟨hnonneg, hle, hstep⟩, Schedule.le_next _ _ _ _,
      Schedule.next_le hnonneg hle hb.1 hb.2 hstep⟩
  | thresholdAcceptance c =>
    rw [accept_thresholdAcceptance]
    obtain ⟨hnonneg, hle, hstep⟩ := hr
    exact ⟨⟨hnonneg, hle, hstep⟩, Schedule.le_next _ _ _ _,
      Schedule.next_le hnonneg hle hb.1 hb.2 hstep⟩
  | randomAccept c =>
    rw [accept_randomAccept, RandomAccept.accept_snd]
    obtain ⟨hnonneg, hle, hone, hstep⟩ := hr
    exact ⟨⟨hnonneg, hle, hone, hstep⟩, Schedule.le_next _ _ _ _,
      Schedule.next_le hnonneg hle hb.1 hb.2 hstep⟩
  | greatDeluge c =>
    rw [accept_greatDeluge]
    exact ⟨GreatDeluge.InRange.accept hr, True.intro⟩
  | nonLinearGreatDeluge c =>
    rw [accept_nonLinearGreatDeluge]
    cases hc : c.accept best current candidate with
    | error f => exact ⟨hr, True.intro⟩
    | ok d => exact ⟨NonLinearGreatDeluge.InRange.accept hr hc, True.intro⟩
  | movingAverage c =>
    rw [accept_movingAverage, MovingAverage.accept_snd]
    exact ⟨⟨hr.eta_nonneg, hr.eta_le, hr.gamma_pos⟩, True.intro⟩

/-- **A reachable criterion is in its ranges and bounds.** -/
theorem Reachable.inRange_bounded (h : c.Reachable) : c.InRange ∧ c.Bounded := by
  induction h with
  | fresh made => exact ⟨inRange_of_fresh made, bounded_of_fresh made⟩
  | decided best current candidate before ih =>
    exact inRange_bounded_accept best current candidate ih.1 ih.2

end Criterion

end LargeNeighbourhood
