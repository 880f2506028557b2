/-
# The ranges of a criterion's parameters

Each kind of criterion has a range for every parameter, and its constructor refuses what lies
outside.  Some of its checks ask for what has to hold (`0 ≤ end`), others for what must not
(`end < 0`).  The two agree on numbers only, so the arguments of the second kind have to be known
to be numbers before a range follows from the constructor's silence.  The lemmas
`inRange_iff_of_make` say that this is all: what a constructor made is in its ranges exactly where
these arguments are numbers.

In exact arithmetic they always are (`Criterion.inRange_of_fresh`).
-/
import Mathlib
import LargeNeighbourhood.Proofs.Acceptance.Welcome
import LargeNeighbourhood.Proofs.Scalar.Numbers

namespace LargeNeighbourhood

open Scalar

/-! ## 1. The ranges -/

section Ranges

variable {K : Type} [Scalar K]

/-- The steps a schedule takes: none leads back, and an exponential schedule shrinks. -/
structure Schedule.Admits (m : Schedule) (step : K) : Prop where
  nonneg : 0 ≤ step
  shrinks : m = .exponential → 0 < step ∧ step ≤ 1

/-- The parameters of annealing are in their ranges. -/
structure SimulatedAnnealing.InRange (c : SimulatedAnnealing K) : Prop where
  finish_pos : 0 < c.finish
  finish_le : c.finish ≤ c.start
  admits : c.method.Admits c.step

/-- The parameters of a threshold are in their ranges. -/
structure RecordToRecord.InRange (c : RecordToRecord K) : Prop where
  finish_nonneg : 0 ≤ c.finish
  finish_le : c.finish ≤ c.start
  admits : c.method.Admits c.step

/-- The parameters of a falling probability are in their ranges. -/
structure RandomAccept.InRange (c : RandomAccept K) : Prop where
  finish_nonneg : 0 ≤ c.finish
  finish_le : c.finish ≤ c.start
  start_le : c.start ≤ 1
  admits : c.method.Admits c.step

/-- The parameters of a great deluge are in their ranges. -/
structure GreatDeluge.InRange (c : GreatDeluge K) : Prop where
  one_lt_alpha : 1 < c.alpha
  beta_pos : 0 < c.beta
  beta_lt : c.beta < 1

/-- The parameters of a non-linear great deluge are in their ranges. -/
structure NonLinearGreatDeluge.InRange (c : NonLinearGreatDeluge K) : Prop where
  deluge : c.deluge.InRange
  gamma_pos : 0 < c.gamma
  delta_pos : 0 < c.delta

/-- The parameters of a moving average are in their ranges. -/
structure MovingAverage.InRange (c : MovingAverage K) : Prop where
  eta_nonneg : 0 ≤ c.eta
  eta_le : c.eta ≤ 1
  gamma_pos : 0 < c.gamma

/-- The parameters of a criterion are in their ranges.  Late acceptance has none that could lie
outside. -/
def Criterion.InRange : Criterion K → Prop
  | simulatedAnnealing c => c.InRange
  | recordToRecord c => c.InRange
  | thresholdAcceptance c => c.InRange
  | randomAccept c => c.InRange
  | greatDeluge c => c.InRange
  | nonLinearGreatDeluge c => c.InRange
  | movingAverage c => c.InRange
  | _ => True

/-! ## 2. What the constructors check -/

variable {number : K → Prop} (hn : Numbers number)
include hn

/-- A step that a constructor did not refuse is in its range where it is a number. -/
theorem Schedule.admits_iff {m : Schedule} {step : K} (hneg : ¬step < 0)
    (hrefused : ¬m.refusesStep step = true) : m.Admits step ↔ number step := by
  constructor
  · intro h
    exact (hn.of_le h.nonneg).2
  · intro hstep
    refine ⟨hn.le_of_not_lt hn.zero hstep hneg, ?_⟩
    rintro rfl
    simp only [refusesStep, decide_true, Bool.true_and, Bool.or_eq_true, decide_eq_true_eq,
      not_or] at hrefused
    exact ⟨hn.lt_of_not_le hn.zero hstep hrefused.1, hn.le_of_not_lt hstep hn.one hrefused.2⟩

theorem SimulatedAnnealing.inRange_iff_of_make {start finish step : K} {method : Schedule}
    {verbose : Bool} {c : SimulatedAnnealing K}
    (h : make start finish step method verbose = .ok c) :
    c.InRange ↔ number start ∧ number finish ∧ number step := by
  simp only [make, Checks.guard_ok_iff, Checks.pure_ok_iff, not_or] at h
  obtain ⟨⟨-, hfinish, hneg⟩, hrev, hrefused, rfl⟩ := h
  have hstep := Schedule.admits_iff hn hneg hrefused
  constructor
  · rintro ⟨-, hle, hadmits⟩
    exact ⟨(hn.of_le hle).2, (hn.of_le hle).1, hstep.1 hadmits⟩
  · rintro ⟨hs, hf, hst⟩
    exact ⟨hn.lt_of_not_le hn.zero hf hfinish, hn.le_of_not_lt hf hs hrev, hstep.2 hst⟩

theorem RecordToRecord.inRange_iff_of_make {start finish step : K} {method : Schedule}
    {c : RecordToRecord K} (h : make start finish step method = .ok c) :
    c.InRange ↔ number start ∧ number finish ∧ number step := by
  simp only [make, Checks.guard_ok_iff, Checks.pure_ok_iff, not_or] at h
  obtain ⟨⟨-, hfinish, hneg⟩, hrev, hrefused, rfl⟩ := h
  have hstep := Schedule.admits_iff hn hneg hrefused
  constructor
  · rintro ⟨-, hle, hadmits⟩
    exact ⟨(hn.of_le hle).2, (hn.of_le hle).1, hstep.1 hadmits⟩
  · rintro ⟨hs, hf, hst⟩
    exact ⟨hn.le_of_not_lt hn.zero hf hfinish, hn.le_of_not_lt hf hs hrev, hstep.2 hst⟩

/-- The probabilities are checked for what has to hold, the step is not. -/
theorem RandomAccept.inRange_iff_of_make {start finish step : K} {method : Schedule}
    {c : RandomAccept K} (h : make start finish step method = .ok c) :
    c.InRange ↔ number step := by
  simp only [make, Checks.guard_ok_iff, Checks.pure_ok_iff, Decidable.not_not] at h
  obtain ⟨⟨hfinish, hle, hstart⟩, hneg, hrefused, rfl⟩ := h
  have hstep := Schedule.admits_iff hn hneg hrefused
  constructor
  · intro hrange
    exact hstep.1 hrange.admits
  · intro hst
    exact ⟨hfinish, hle, hstart, hstep.2 hst⟩

theorem GreatDeluge.inRange_iff_of_make {alpha beta : K} {c : GreatDeluge K}
    (h : make alpha beta = .ok c) : c.InRange ↔ number alpha := by
  unfold make at h
  split at h
  · exact absurd h (by simp)
  · rename_i hpar
    rw [not_or, Decidable.not_not] at hpar
    cases h
    constructor
    · intro hrange
      exact (hn.of_lt hrange.one_lt_alpha).2
    · intro halpha
      exact ⟨hn.lt_of_not_le hn.one halpha hpar.1, hpar.2.1, hpar.2.2⟩

theorem NonLinearGreatDeluge.inRange_iff_of_make {alpha beta gamma delta : K}
    {c : NonLinearGreatDeluge K} (h : make alpha beta gamma delta = .ok c) :
    c.InRange ↔ number alpha ∧ number gamma ∧ number delta := by
  unfold make at h
  obtain ⟨deluge, hdeluge, h⟩ := Checks.bind_ok_iff.1 h
  simp only [Checks.guard_ok_iff, Checks.pure_ok_iff, not_or] at h
  obtain ⟨⟨hgamma, hdelta⟩, rfl⟩ := h
  have halpha := GreatDeluge.inRange_iff_of_make hn hdeluge
  constructor
  · rintro ⟨hrange, hg, hd⟩
    exact ⟨halpha.1 hrange, (hn.of_lt hg).2, (hn.of_lt hd).2⟩
  · rintro ⟨ha, hg, hd⟩
    exact ⟨halpha.2 ha, hn.lt_of_not_le hn.zero hg hgamma, hn.lt_of_not_le hn.zero hd hdelta⟩

omit hn in
/-- Both parameters of a moving average are checked for what has to hold. -/
theorem MovingAverage.inRange_of_make {eta : K} {gamma : Int} {c : MovingAverage K}
    (h : make eta gamma = .ok c) : c.InRange := by
  simp only [make, Checks.guard_ok_iff, Checks.pure_ok_iff, Bool.not_eq_true',
    Bool.not_eq_false, within, Bool.and_eq_true, decide_eq_true_eq] at h
  obtain ⟨heta, hgamma, rfl⟩ := h
  exact ⟨heta.1, heta.2, Int.lt_toNat.2 (by omega)⟩

end Ranges

/-! ## 3. Exact arithmetic -/

/-- **A new criterion is in its ranges**, where the arithmetic is exact. -/
theorem Criterion.inRange_of_fresh {K : Type} [Field K] [LinearOrder K] [IsStrictOrderedRing K]
    [Elementary K] {c : Criterion K} (h : c.Fresh) : c.InRange := by
  have yes : True ∧ True ∧ True := ⟨True.intro, True.intro, True.intro⟩
  cases h with
  | simulatedAnnealing made =>
    exact (SimulatedAnnealing.inRange_iff_of_make numbers_exact made).2 yes
  | annealingFitted made =>
    obtain ⟨start, step, hmake⟩ := SimulatedAnnealing.make_of_fit made
    exact (SimulatedAnnealing.inRange_iff_of_make numbers_exact hmake).2 yes
  | recordToRecord made => exact (RecordToRecord.inRange_iff_of_make numbers_exact made).2 yes
  | thresholdAcceptance made =>
    exact (RecordToRecord.inRange_iff_of_make numbers_exact made).2 yes
  | randomAccept made => exact (RandomAccept.inRange_iff_of_make numbers_exact made).2 True.intro
  | greatDeluge made => exact (GreatDeluge.inRange_iff_of_make numbers_exact made).2 True.intro
  | nonLinearGreatDeluge made =>
    exact (NonLinearGreatDeluge.inRange_iff_of_make numbers_exact made).2 yes
  | movingAverage made => exact MovingAverage.inRange_of_make made
  | _ => exact True.intro

end LargeNeighbourhood
