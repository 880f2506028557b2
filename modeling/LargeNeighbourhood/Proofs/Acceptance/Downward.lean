/-
# Better candidates fare no worse

If a criterion takes a candidate, it takes every candidate with a lower objective in its place:
from the same state, with the same generator, about the same best and current solutions
(`accepts_of_objective_le`).

Most criteria compare the candidate with something that the candidate has no part in: an old
reference, a threshold, a level, a drawn fraction.  For three of them there is more to say.

* Annealing divides by its temperature, and that is positive in every state decisions lead to.
* Random acceptance draws for one candidate and not for another, but a draw decides only about
  candidates that are no better than the current solution.
* The moving average puts the candidate into the window it is compared with.  A lower candidate
  lowers the threshold as well, but by no more than it is lower itself (`sub_threshold_le`); and a
  candidate that is the least of the window is never above the threshold.
-/
import Mathlib
import LargeNeighbourhood.Proofs.Acceptance.NewBest
import LargeNeighbourhood.Proofs.Acceptance.Reachable

namespace LargeNeighbourhood

open Act

/-! ## 1. Comparisons with what the candidate has no part in -/

section Comparisons

variable {K : Type} [LinearOrder K] {best current x y : K}

/-- Late acceptance compares with the oldest reference and with the current solution. -/
theorem LateAcceptance.accept_of_le {c : LateAcceptance K} (hle : y ≤ x)
    (hx : (c.accept current x).1 = true) : (c.accept current y).1 = true := by
  unfold accept at hx ⊢
  cases hc : c.history with
  | nil =>
    simp only [hc, decide_eq_true_eq] at hx ⊢
    exact hle.trans_lt hx
  | cons oldest rest =>
    simp only [hc, Bool.or_eq_true, Bool.and_eq_true, decide_eq_true_eq] at hx ⊢
    rcases hx with hx | ⟨hgreedy, hx⟩
    · exact Or.inl (hle.trans_lt hx)
    · exact Or.inr ⟨hgreedy, hle.trans_lt hx⟩

variable [Field K]

/-- A threshold that a gap meets is met by every smaller one. -/
theorem RecordToRecord.accept_of_le {c : RecordToRecord K} (hle : y ≤ x)
    (hx : (c.accept x).1 = true) : (c.accept y).1 = true :=
  decide_eq_true (hle.trans (of_decide_eq_true hx))

/-- A draw decides about candidates that are no better than the current solution, and does not
look at them. -/
theorem RandomAccept.accept_of_le {c : RandomAccept K} {g : Generator} (hle : y ≤ x)
    (hx : (c.accept current x g).1.1 = true) : (c.accept current y g).1.1 = true := by
  by_cases hy : y < current
  · exact accepts_of_lt hy g
  · have hnot : ¬x < current := fun h => hy (hle.trans_lt h)
    have hsame : c.accept current y = c.accept current x := by
      unfold accept
      rw [if_neg hy, if_neg hnot]
    rw [hsame]
    exact hx

/-- Both deluges compare with a level that the decision begins with. -/
theorem NonLinearGreatDeluge.accept_of_le [Elementary K] {c : NonLinearGreatDeluge K}
    {d : Bool × NonLinearGreatDeluge K} (hle : y ≤ x)
    (hx : c.accept best current x = .ok d) (htaken : d.1 = true) :
    ∃ d', c.accept best current y = .ok d' ∧ d'.1 = true := by
  unfold accept at hx ⊢
  obtain ⟨level, hlevel, hd⟩ := Checks.bind_ok_iff.1 hx
  cases Checks.pure_ok_iff.1 hd
  refine ⟨_, Checks.bind_ok_iff.2 ⟨level, hlevel, rfl⟩, ?_⟩
  simp only [Bool.or_eq_true, decide_eq_true_eq] at htaken ⊢
  rcases htaken with h | h
  · exact Or.inl (hle.trans_lt h)
  · exact Or.inr (hle.trans_lt h)

variable [IsStrictOrderedRing K]

theorem GreatDeluge.accept_of_le {c : GreatDeluge K} (hle : y ≤ x)
    (hx : (c.accept best x).1 = true) : (c.accept best y).1 = true :=
  decide_eq_true ((of_decide_eq_true hx : 0 < c.level best - x).trans_le
    (sub_le_sub_left hle _))

/-- At a positive temperature a better candidate has no smaller chance. -/
theorem SimulatedAnnealing.chance_le [Elementary K] (hexp : Monotone (Elementary.exp : K → K))
    {c : SimulatedAnnealing K} (hpos : 0 < c.temperature) (hle : y ≤ x) :
    c.chance current x ≤ c.chance current y :=
  hexp (div_le_div_of_nonneg_right (sub_le_sub_left hle _) hpos.le)

/-- Annealing draws one fraction for either candidate. -/
theorem SimulatedAnnealing.accept_of_le [Elementary K]
    (hexp : Monotone (Elementary.exp : K → K)) {w : Setting K (SimulatedAnnealing K)}
    (hpos : 0 < w.own.temperature) (hle : y ≤ x)
    (hx : (result (accept current x) w).1 = .ok true) :
    (result (accept current y) w).1 = .ok true := by
  obtain ⟨said, hrx⟩ := result_accept current x w
  obtain ⟨said', hry⟩ := result_accept current y w
  rw [hrx, Except.ok.injEq, decide_eq_true_eq] at hx
  rw [hry, Except.ok.injEq, decide_eq_true_eq]
  exact hx.trans (chance_le hexp hpos hle)

end Comparisons

/-! ## 2. The window of a moving average -/

namespace MovingAverage

variable {K : Type}

/-- A window of at least one entry holds the candidate last.  What stands before it does not
depend on the candidate. -/
theorem exists_kept (c : MovingAverage K) (hpos : 0 < c.gamma) :
    ∃ kept, ∀ x, (c.record x).history = kept ++ [x] := by
  by_cases hfull : c.gamma < c.history.length + 1
  · have hne : c.history ≠ [] := by
      intro hnil
      rw [hnil, List.length_nil] at hfull
      omega
    refine ⟨c.history.tail, fun x => ?_⟩
    rw [record, List.length_append, List.length_singleton, if_pos hfull]
    exact List.tail_append_of_ne_nil hne
  · refine ⟨c.history, fun x => ?_⟩
    rw [record, List.length_append, List.length_singleton, if_neg hfull]

theorem least_concat [LinearOrder K] (a : K) (rest : List K) (x : K) :
    Scalar.least a (rest ++ [x]) = min (Scalar.least a rest) x := by
  rw [Scalar.least, List.foldl_append, ← Scalar.lower_eq_min]
  rfl

variable [Field K] [LinearOrder K] [IsStrictOrderedRing K] {c : MovingAverage K} {x y : K}

/-- **The threshold falls by no more than the candidate**, as long as the candidate is not the
least of the window: only the mean moves then, by the share of one entry. -/
theorem sub_threshold_le (hone : c.eta ≤ 1) {a : K} {rest : List K}
    (hy : Scalar.least a rest ≤ y) (hle : y ≤ x) :
    c.threshold a (rest ++ [x]) - c.threshold a (rest ++ [y]) ≤ x - y := by
  have hn : (1 : K) ≤ ((rest.length + 1 + 1 : Nat) : K) := by
    exact_mod_cast Nat.le_add_left 1 (rest.length + 1)
  have hshare : (x - y) / ((rest.length + 1 + 1 : Nat) : K) ≤ x - y :=
    div_le_self (sub_nonneg.2 hle) hn
  have hnonneg : 0 ≤ (x - y) / ((rest.length + 1 + 1 : Nat) : K) :=
    div_nonneg (sub_nonneg.2 hle) (zero_le_one.trans hn)
  have hdiff : c.threshold a (rest ++ [x]) - c.threshold a (rest ++ [y])
      = c.eta * ((x - y) / ((rest.length + 1 + 1 : Nat) : K)) := by
    simp only [threshold, least_concat, min_eq_left hy, min_eq_left (hy.trans hle),
      Scalar.sum_eq_sum, List.sum_cons, List.sum_append, List.sum_nil, List.length_append,
      List.length_singleton]
    ring
  calc c.threshold a (rest ++ [x]) - c.threshold a (rest ++ [y])
      = c.eta * ((x - y) / ((rest.length + 1 + 1 : Nat) : K)) := hdiff
    _ ≤ 1 * ((x - y) / ((rest.length + 1 + 1 : Nat) : K)) :=
        mul_le_mul_of_nonneg_right hone hnonneg
    _ = (x - y) / ((rest.length + 1 + 1 : Nat) : K) := one_mul _
    _ ≤ x - y := hshare

theorem accept_of_le (hrange : c.InRange) (hle : y ≤ x) (hx : (c.accept x).1 = true) :
    (c.accept y).1 = true := by
  obtain ⟨kept, hkept⟩ := exists_kept c hrange.gamma_pos
  unfold accept at hx ⊢
  simp only [hkept] at hx ⊢
  cases kept with
  | nil =>
    -- alone in its window the candidate is its own threshold
    refine decide_eq_true (le_threshold hrange.eta_nonneg ?_)
    intro z hz
    exact (List.mem_singleton.1 hz).ge
  | cons a rest =>
    simp only [List.cons_append, decide_eq_true_eq] at hx ⊢
    change x ≤ c.threshold a (rest ++ [x]) at hx
    change y ≤ c.threshold a (rest ++ [y])
    rcases le_total (Scalar.least a rest) y with hy | hy
    · have hfall := sub_threshold_le hrange.eta_le hy hle
      linarith
    · -- below all the others, the candidate is the least of its window
      refine le_threshold hrange.eta_nonneg ?_
      intro z hz
      rcases List.mem_append.1 (List.cons_append ▸ hz : z ∈ (a :: rest) ++ [y]) with hz | hz
      · exact hy.trans (Scalar.least_le hz)
      · exact (List.mem_singleton.1 hz).ge

end MovingAverage

/-! ## 3. All criteria -/

namespace Criterion

variable {K X : Type} [Field K] [LinearOrder K] [IsStrictOrderedRing K] [Elementary K]
  [Solution K X]

/-- **What is taken, is taken with a lower objective too.**  This holds in every state that
decisions bring a criterion to, for every generator, and whatever the best and the current
solution are. -/
theorem accepts_of_objective_le (hexp : Monotone (Elementary.exp : K → K))
    {w : Setting K (Criterion K)} (h : w.own.Reachable) {best current x y : X}
    (hle : objective y ≤ objective x)
    (hx : (result (acceptor.accept best current x) w).1 = .ok true) :
    (result (acceptor.accept best current y) w).1 = .ok true := by
  obtain ⟨hrange, hbounded⟩ := h.inRange_bounded
  obtain ⟨own, rng, lines⟩ := w
  change (result (accept (objective best) (objective current) (objective x)) _).1 = _ at hx
  change (result (accept (objective best) (objective current) (objective y)) _).1 = _
  cases own with
  | hillClimbing =>
    rw [accept_hillClimbing, Except.ok.injEq] at hx ⊢
    exact decide_eq_true (hle.trans (of_decide_eq_true hx))
  | randomWalk => rfl
  | lateAcceptance c =>
    rw [accept_lateAcceptance, Except.ok.injEq] at hx ⊢
    exact LateAcceptance.accept_of_le hle hx
  | simulatedAnnealing c =>
    rw [accept_simulatedAnnealing] at hx ⊢
    exact SimulatedAnnealing.accept_of_le hexp (hrange.finish_pos.trans_le hbounded.1) hle hx
  | recordToRecord c =>
    rw [accept_recordToRecord, Except.ok.injEq] at hx ⊢
    exact RecordToRecord.accept_of_le (sub_le_sub_right hle _) hx
  | thresholdAcceptance c =>
    rw [accept_thresholdAcceptance, Except.ok.injEq] at hx ⊢
    exact RecordToRecord.accept_of_le (sub_le_sub_right hle _) hx
  | randomAccept c =>
    rw [accept_randomAccept, Except.ok.injEq] at hx ⊢
    exact RandomAccept.accept_of_le hle hx
  | greatDeluge c =>
    rw [accept_greatDeluge, Except.ok.injEq] at hx ⊢
    exact GreatDeluge.accept_of_le hle hx
  | nonLinearGreatDeluge c =>
    rw [accept_nonLinearGreatDeluge] at hx ⊢
    cases hc : c.accept (objective best) (objective current) (objective x) with
    | error f => rw [hc] at hx; cases hx
    | ok d =>
      rw [hc, Except.ok.injEq] at hx
      obtain ⟨d', hd', htaken⟩ := NonLinearGreatDeluge.accept_of_le hle hc hx
      rw [hd', ← htaken]
  | movingAverage c =>
    rw [accept_movingAverage, Except.ok.injEq] at hx ⊢
    exact MovingAverage.accept_of_le hrange hle hx

end Criterion

namespace Countdown

/-- A moving average over two candidates, halfway between the least and the mean. -/
noncomputable def average : MovingAverage ℝ where
  eta := 1 / 2
  gamma := 2

theorem make_average : MovingAverage.make (1 / 2 : ℝ) 2 = .ok average := by
  simp only [MovingAverage.make, Checks.guard_ok_iff, Checks.pure_ok_iff]
  exact ⟨by norm_num [Scalar.within], by decide, rfl⟩

/-- The moving average after it decided about a candidate of objective two. -/
noncomputable def averaged : Setting ℝ (Criterion ℝ) :=
  (result (Criterion.accept 2 2 2) ⟨.movingAverage average, ⟨0, 1⟩, #[]⟩).2

end Countdown

open Countdown in
/-- The moving average takes a second candidate of objective two, so it takes one of objective one,
although that lowers the threshold to five quarters. -/
theorem accepts_one_averaged :
    (result (Criterion.acceptor.accept (⟨2⟩ : Level ℝ) ⟨2⟩ ⟨1⟩) averaged).1 = .ok true := by
  have hreach : averaged.own.Reachable := .decided 2 2 2 (.fresh (.movingAverage make_average))
  have htwo : (result (Criterion.acceptor.accept (⟨2⟩ : Level ℝ) ⟨2⟩ ⟨2⟩) averaged).1
      = .ok true := by
    change (result (Criterion.accept (2 : ℝ) 2 2) averaged).1 = _
    rw [averaged, Criterion.accept_movingAverage, Criterion.accept_movingAverage,
      Except.ok.injEq]
    norm_num [MovingAverage.accept, MovingAverage.record, MovingAverage.threshold, average,
      Scalar.least, Scalar.lower, Scalar.sum]
  have hle : objective (⟨1⟩ : Level ℝ) ≤ objective (⟨2⟩ : Level ℝ) := one_le_two
  exact Criterion.accepts_of_objective_le Real.exp_monotone hreach hle htwo

end LargeNeighbourhood
