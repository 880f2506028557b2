/-
# The ranges of a scheme's parameters

The scores of a scheme are checked for what must not hold, so what is in the range of a score
follows only for numbers (`Scores.inRange_iff_of_ofList`).  All other parameters of the schemes and
of the bandit policy are checked for what has to hold.
-/
import LargeNeighbourhood.Proofs.Checks
import LargeNeighbourhood.Proofs.Scalar.Numbers
import LargeNeighbourhood.Selection.Scheme

namespace LargeNeighbourhood

open Scalar

variable {K : Type} [Scalar K]

/-! ## 1. The ranges -/

/-- No score is negative. -/
def Scores.InRange (s : Scores K) : Prop := ∀ x ∈ s.toList, 0 ≤ x

/-- The parameters of a wheel are in their ranges. -/
structure Roulette.InRange (s : Roulette K) : Prop where
  scores : s.scores.InRange
  decay_nonneg : 0 ≤ s.decay
  decay_le : s.decay ≤ 1
  floor_pos : 0 < s.floor

/-- The parameters of a confidence bound are in their ranges. -/
structure ConfidenceBound.InRange (s : ConfidenceBound K) : Prop where
  scores : s.scores.InRange
  alpha_nonneg : 0 ≤ s.alpha
  alpha_le : s.alpha ≤ 1

/-- The parameter of an epsilon-greedy policy is in its range. -/
structure EpsilonGreedy.InRange (s : EpsilonGreedy K) : Prop where
  epsilon_nonneg : 0 ≤ s.epsilon
  epsilon_le : s.epsilon ≤ 1

/-! ## 2. What the constructors check -/

theorem EpsilonGreedy.inRange_of_make {epsilon : K} {s : EpsilonGreedy K}
    (h : make epsilon = .ok s) : s.InRange := by
  unfold make at h
  split at h
  · rename_i hwithin
    rw [within, Bool.and_eq_true, decide_eq_true_eq, decide_eq_true_eq] at hwithin
    cases h
    exact ⟨hwithin.1, hwithin.2⟩
  · cases h

variable {number : K → Prop} (hn : Numbers number)
include hn

/-- Scores that were not refused are in their range where they are numbers. -/
theorem Scores.inRange_iff_of_ofList {scores : List K} {s : Scores K}
    (h : ofList scores = .ok s) : s.InRange ↔ ∀ x ∈ scores, number x := by
  unfold ofList at h
  split at h
  · rename_i best better accept reject surplus
    split at h
    · cases h
    · rename_i hneg
      cases h
      rw [Bool.not_eq_true, List.any_eq_false] at hneg
      constructor
      · intro hrange x hx
        exact (hn.of_le (hrange x hx)).2
      · intro hnumber x hx
        exact hn.le_of_not_lt hn.zero (hnumber x hx) fun hlt => hneg x hx (decide_eq_true hlt)
  · cases h

theorem Roulette.inRange_iff_of_make {scores : List K} {decay floor : K}
    {numDestroy numRepair : Nat} {coupling? : Option Coupling} {s : Roulette K}
    (h : make scores decay numDestroy numRepair coupling? floor = .ok s) :
    s.InRange ↔ ∀ x ∈ scores, number x := by
  unfold make at h
  obtain ⟨⟨coupling, usable⟩, -, h⟩ := Checks.bind_ok_iff.1 h
  simp only [Checks.bind_ok_iff, Checks.guard_ok_iff, Checks.pure_ok_iff, Bool.not_eq_true',
    Bool.not_eq_false, within, Bool.and_eq_true, decide_eq_true_eq] at h
  obtain ⟨made, hmade, ⟨hnonneg, hle⟩, hfloor, rfl⟩ := h
  rw [← Scores.inRange_iff_of_ofList hn hmade]
  exact ⟨InRange.scores, fun hscores => ⟨hscores, hnonneg, hle, hfloor⟩⟩

theorem Segmented.inRange_iff_of_make {scores : List K} {decay floor : K} {length : Int}
    {numDestroy numRepair : Nat} {coupling? : Option Coupling} {verbose : Bool} {s : Segmented K}
    (h : make scores decay length numDestroy numRepair coupling? floor verbose = .ok s) :
    s.wheel.InRange ↔ ∀ x ∈ scores, number x := by
  unfold make at h
  obtain ⟨wheel, hwheel, h⟩ := Checks.bind_ok_iff.1 h
  simp only [Checks.guard_ok_iff, Checks.pure_ok_iff] at h
  obtain ⟨-, rfl⟩ := h
  exact Roulette.inRange_iff_of_make hn hwheel

theorem ConfidenceBound.inRange_iff_of_make {scores : List K} {alpha : K}
    {numDestroy numRepair : Nat} {coupling? : Option Coupling} {s : ConfidenceBound K}
    (h : make scores alpha numDestroy numRepair coupling? = .ok s) :
    s.InRange ↔ ∀ x ∈ scores, number x := by
  unfold make at h
  obtain ⟨⟨coupling, usable⟩, -, h⟩ := Checks.bind_ok_iff.1 h
  simp only [Checks.bind_ok_iff, Checks.guard_ok_iff, Checks.pure_ok_iff, Bool.not_eq_true',
    Bool.not_eq_false, within, Bool.and_eq_true, decide_eq_true_eq] at h
  obtain ⟨made, hmade, ⟨hnonneg, hle⟩, rfl⟩ := h
  rw [← Scores.inRange_iff_of_ofList hn hmade]
  exact ⟨InRange.scores, fun hscores => ⟨hscores, hnonneg, hle⟩⟩

theorem ArmSelector.inRange_iff_of_make {π : Type} {policy : Policy K π} {scores : List K}
    {numDestroy numRepair : Nat} {policy? : Option π} {coupling? : Option Coupling}
    {s : ArmSelector K π}
    (h : make policy scores numDestroy numRepair policy? coupling? = .ok s) :
    s.scores.InRange ↔ ∀ x ∈ scores, number x := by
  unfold make at h
  obtain ⟨⟨coupling, usable⟩, -, h⟩ := Checks.bind_ok_iff.1 h
  obtain ⟨made, hmade, h⟩ := Checks.bind_ok_iff.1 h
  cases policy? with
  | none => exact absurd h (by simp [Checks.throw_ok_iff])
  | some given =>
    cases Checks.pure_ok_iff.1 h
    exact Scores.inRange_iff_of_ofList hn hmade

end LargeNeighbourhood
