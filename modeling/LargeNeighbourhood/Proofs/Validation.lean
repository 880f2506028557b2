/-
# What the constructors let through

A constructor of the library refuses parameters outside their ranges, and what it makes is then in
its ranges, but for one kind of argument.  Some are compared only with what must not hold: a
threshold must not be negative, the `alpha` of a deluge must not be one or less.  A NaN is neither,
so it passes, and is in no range.

`Validated range unchecked` lists the constructors with these arguments.  Over binary64 they decide
everything: what was made is in its ranges exactly where none of them is NaN
(`Validated.iff_not_nan`).  The infinities do no harm, and neither does a NaN in place of any other
argument, for the constructor refuses it.  In exact arithmetic nothing is let through
(`Validated.holds`).
-/
import Mathlib
import LargeNeighbourhood.Proofs.Acceptance.Ranges
import LargeNeighbourhood.Proofs.Selection.Ranges
import LargeNeighbourhood.Stopping.Limit

namespace LargeNeighbourhood

open Scalar

section Validated

variable {K : Type} [Scalar K]

/-- A limit on the time is checked for what must not hold. -/
theorem TimeLimit.nonneg_iff_of_make {number : K → Prop} (hn : Numbers number) {limit : K}
    {c : TimeLimit K} (h : make limit = .ok c) : 0 ≤ c.limit ↔ number limit := by
  unfold make at h
  split at h
  · cases h
  · rename_i hneg
    cases h
    exact ⟨fun hle => (hn.of_le hle).2, fun hnumber => hn.le_of_not_lt hn.zero hnumber hneg⟩

/-- A constructor returned.  The proposition says that what it made is in its ranges; the list
holds the arguments that were compared only with what must not hold. -/
inductive Validated : Prop → List K → Prop
  | simulatedAnnealing {start finish step method verbose} {c : SimulatedAnnealing K}
      (made : SimulatedAnnealing.make start finish step method verbose = .ok c) :
      Validated c.InRange [start, finish, step]
  | recordToRecord {start finish step method} {c : RecordToRecord K}
      (made : RecordToRecord.make start finish step method = .ok c) :
      Validated c.InRange [start, finish, step]
  | randomAccept {start finish step method} {c : RandomAccept K}
      (made : RandomAccept.make start finish step method = .ok c) : Validated c.InRange [step]
  | greatDeluge {alpha beta} {c : GreatDeluge K} (made : GreatDeluge.make alpha beta = .ok c) :
      Validated c.InRange [alpha]
  | nonLinearGreatDeluge {alpha beta gamma delta} {c : NonLinearGreatDeluge K}
      (made : NonLinearGreatDeluge.make alpha beta gamma delta = .ok c) :
      Validated c.InRange [alpha, gamma, delta]
  | movingAverage {eta gamma} {c : MovingAverage K} (made : MovingAverage.make eta gamma = .ok c) :
      Validated c.InRange []
  | roulette {scores decay numDestroy numRepair coupling? floor} {s : Roulette K}
      (made : Roulette.make scores decay numDestroy numRepair coupling? floor = .ok s) :
      Validated s.InRange scores
  | segmented {scores decay length numDestroy numRepair coupling? floor verbose}
      {s : Segmented K}
      (made : Segmented.make scores decay length numDestroy numRepair coupling? floor verbose
        = .ok s) :
      Validated s.wheel.InRange scores
  | confidenceBound {scores alpha numDestroy numRepair coupling?} {s : ConfidenceBound K}
      (made : ConfidenceBound.make scores alpha numDestroy numRepair coupling? = .ok s) :
      Validated s.InRange scores
  | bandit {π policy scores numDestroy numRepair policy? coupling?} {s : ArmSelector K π}
      (made : ArmSelector.make policy scores numDestroy numRepair policy? coupling? = .ok s) :
      Validated s.scores.InRange scores
  | epsilonGreedy {epsilon} {s : EpsilonGreedy K} (made : EpsilonGreedy.make epsilon = .ok s) :
      Validated s.InRange []
  | timeLimit {limit} {c : TimeLimit K} (made : TimeLimit.make limit = .ok c) :
      Validated (0 ≤ c.limit) [limit]

/-- **What a constructor made is in its ranges exactly where the arguments that it compared only
with what must not hold are numbers.** -/
theorem Validated.iff_number {number : K → Prop} (hn : Numbers number) {range : Prop}
    {unchecked : List K} (h : Validated range unchecked) :
    range ↔ ∀ x ∈ unchecked, number x := by
  cases h with
  | simulatedAnnealing made =>
    rw [SimulatedAnnealing.inRange_iff_of_make hn made]
    simp
  | recordToRecord made =>
    rw [RecordToRecord.inRange_iff_of_make hn made]
    simp
  | randomAccept made =>
    rw [RandomAccept.inRange_iff_of_make hn made]
    simp
  | greatDeluge made =>
    rw [GreatDeluge.inRange_iff_of_make hn made]
    simp
  | nonLinearGreatDeluge made =>
    rw [NonLinearGreatDeluge.inRange_iff_of_make hn made]
    simp
  | movingAverage made => exact iff_of_true (MovingAverage.inRange_of_make made) (by simp)
  | roulette made => exact Roulette.inRange_iff_of_make hn made
  | segmented made => exact Segmented.inRange_iff_of_make hn made
  | confidenceBound made => exact ConfidenceBound.inRange_iff_of_make hn made
  | bandit made => exact ArmSelector.inRange_iff_of_make hn made
  | epsilonGreedy made => exact iff_of_true (EpsilonGreedy.inRange_of_make made) (by simp)
  | timeLimit made =>
    rw [TimeLimit.nonneg_iff_of_make hn made]
    simp

end Validated

/-- In exact arithmetic no constructor lets a parameter out of its range through. -/
theorem Validated.holds {K : Type} [Field K] [LinearOrder K] {range : Prop} {unchecked : List K}
    (h : Validated range unchecked) : range :=
  (h.iff_number numbers_exact).2 fun _ _ => True.intro

/-- **In binary64 a constructor lets NaN through**, in place of an argument that it compares only
with what must not hold, and nothing else: without a NaN among these arguments what it made is in
its ranges, and with one it is not. -/
theorem Validated.iff_not_nan {range : Prop} {unchecked : List Float}
    (h : Validated range unchecked) : range ↔ ∀ x ∈ unchecked, x.isNaN = false :=
  h.iff_number Binary64.numbers_binary64

/-- A deluge that begins at infinity is in its ranges. -/
theorem inRange_deluge_infinite :
    (⟨1 / 0, 0.5, none⟩ : GreatDeluge Float).InRange := by
  have made : GreatDeluge.make (1 / 0 : Float) 0.5 = .ok ⟨1 / 0, 0.5, none⟩ :=
    if_neg (by decide)
  exact (Validated.greatDeluge made).iff_not_nan.2 (by decide)

/-- A deluge whose `alpha` is NaN is made, although that is not above one. -/
theorem deluge_of_nan :
    GreatDeluge.make (0 / 0 : Float) 0.5 = .ok ⟨0 / 0, 0.5, none⟩ ∧
      ¬(⟨0 / 0, 0.5, none⟩ : GreatDeluge Float).InRange := by
  refine ⟨if_neg (by decide), ?_⟩
  intro hrange
  exact absurd hrange.one_lt_alpha (by decide)

end LargeNeighbourhood
