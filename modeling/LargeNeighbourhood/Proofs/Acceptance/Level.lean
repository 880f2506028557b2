/-
# Water levels

The first level of a deluge is a multiple of the best objective, by a factor above one.  So it lies
above a positive best objective and below a negative one (`lt_alpha_mul_iff`).

The non-linear deluge divides by its level.  As long as the best objectives it sees are not
negative, its level is positive once it is set (`Afloat`), for neither of the two rules leads down
to zero.  A negative level it may leave by the first rule, which adds a multiple of the distance of
the candidate, and there is a candidate whose distance takes the level to zero
(`nextLevel_of_descent`).  Then the next decision divides by zero (`level_pos_or_vanishes`).

That a new deluge takes whatever is no worse than the best solution depends on the sign in the same
way (`deluge_starts_above_iff`).
-/
import Mathlib
import LargeNeighbourhood.Proofs.Acceptance.NewBest
import LargeNeighbourhood.Proofs.Acceptance.Reachable

namespace LargeNeighbourhood

open Act

variable {K : Type} [Field K] [LinearOrder K]

/-! ## 1. The first level -/

namespace GreatDeluge

variable {c : GreatDeluge K}

theorem eq_of_make {alpha beta : K} (h : make alpha beta = .ok c) : c = { alpha, beta } := by
  unfold make at h
  split at h
  · exact absurd h (by simp)
  · exact (Except.ok.inj h).symm

variable [IsStrictOrderedRing K]

/-- The first level lies above the best objective where that is positive. -/
theorem lt_alpha_mul_iff (halpha : 1 < c.alpha) (best : K) : best < c.alpha * best ↔ 0 < best := by
  rw [← sub_pos, ← sub_one_mul]
  exact mul_pos_iff_of_pos_left (sub_pos.2 halpha)

/-- A level above the best objective lies above all that is no worse, before the decision about it
and after. -/
theorem accept_of_lt {best candidate : K} (hrange : c.InRange) (h : best < c.level best)
    (hle : candidate ≤ best) :
    (c.accept best candidate).1 = true ∧
      ∀ best', candidate < (c.accept best candidate).2.level best' := by
  refine ⟨decide_eq_true (sub_pos.2 (hle.trans_lt h)), fun best' => ?_⟩
  have hlevel : min best candidate < (c.accept best candidate).2.level best' :=
    lt_level_accept hrange.beta_pos hrange.beta_lt h best'
  rwa [min_eq_right hle] at hlevel

end GreatDeluge

namespace NonLinearGreatDeluge

variable {c : NonLinearGreatDeluge K}

theorem level_of_some {level : K} (h : c.deluge.level? = some level) (best : K) :
    c.level best = .ok level := by
  rw [NonLinearGreatDeluge.level, h]

/-- A deluge without a level refuses to begin at zero. -/
theorem level_zero_of_none (h : c.deluge.level? = none) :
    c.level 0 = .error .zeroInitialValue := by
  rw [level, h]
  exact if_pos (Scalar.same_iff.2 rfl)

theorem level_of_none (h : c.deluge.level? = none) {best : K} (hbest : best ≠ 0) :
    c.level best = .ok (c.deluge.alpha * best) := by
  rw [level, h]
  exact if_neg fun hsame => hbest (Scalar.same_iff.1 hsame)

theorem eq_of_make {alpha beta gamma delta : K} (h : make alpha beta gamma delta = .ok c) :
    c = { deluge := { alpha, beta }, gamma, delta } := by
  unfold make at h
  obtain ⟨deluge, hdeluge, h⟩ := Checks.bind_ok_iff.1 h
  obtain ⟨-, h⟩ := Checks.guard_ok_iff.1 h
  cases Checks.pure_ok_iff.1 h
  rw [GreatDeluge.eq_of_make hdeluge]

/-- The deluge at another level. -/
def atLevel (c : NonLinearGreatDeluge K) (level : K) : NonLinearGreatDeluge K :=
  { c with deluge := { c.deluge with level? := some level } }

theorem InRange.atLevel (h : c.InRange) (level : K) : (c.atLevel level).InRange :=
  ⟨⟨h.deluge.one_lt_alpha, h.deluge.beta_pos, h.deluge.beta_lt⟩, h.gamma_pos, h.delta_pos⟩

/-! ## 2. Decisions of the non-linear deluge -/

variable [Elementary K]

/-- A decision at a level takes what lies below the level or below the current solution. -/
theorem accept_of_level {level best current candidate : K} (h : c.level best = .ok level) :
    c.accept best current candidate
      = .ok (decide (candidate < level) || decide (candidate < current),
        c.atLevel (c.nextLevel level best candidate)) := by
  rw [accept, h]
  rfl

theorem accept_of_refused {f : Fault K} {best current candidate : K}
    (h : c.level best = .error f) : c.accept best current candidate = .error f := by
  rw [accept, h]
  rfl

/-- The three objectives that a decision is about. -/
structure Question (K : Type) where
  best : K
  current : K
  candidate : K

/-- The deluge after a decision; one that fails leaves it as it was. -/
def step (c : NonLinearGreatDeluge K) (x : Question K) : NonLinearGreatDeluge K :=
  match c.accept x.best x.current x.candidate with
  | .ok d => d.2
  | .error _ => c

/-- The deluge after some decisions. -/
def after (c : NonLinearGreatDeluge K) (xs : List (Question K)) : NonLinearGreatDeluge K :=
  xs.foldl step c

variable {x : Question K} {xs : List (Question K)}

/-- A step is what a decision leaves of the criterion. -/
theorem own_accept (rng : Generator) (lines : Array (Line K)) :
    (result (Criterion.accept x.best x.current x.candidate)
      ⟨.nonLinearGreatDeluge c, rng, lines⟩).2.own = .nonLinearGreatDeluge (c.step x) := by
  rw [Criterion.accept_nonLinearGreatDeluge, step]
  cases c.accept x.best x.current x.candidate with
  | error f => rfl
  | ok d => rfl

theorem step_of_level {level : K} (h : c.level x.best = .ok level) :
    c.step x = c.atLevel (c.nextLevel level x.best x.candidate) := by
  rw [step, accept_of_level h]

theorem step_of_refused {f : Fault K} (h : c.level x.best = .error f) : c.step x = c := by
  rw [step, accept_of_refused h]

/-- Decisions leave the parameters alone. -/
theorem step_params (c : NonLinearGreatDeluge K) (x : Question K) :
    (c.InRange → (c.step x).InRange) ∧ (c.step x).gamma = c.gamma := by
  rcases h : c.level x.best with f | level
  · rw [step_of_refused h]
    exact ⟨id, rfl⟩
  · rw [step_of_level h]
    exact ⟨fun hc => hc.atLevel _, rfl⟩

theorem after_params (c : NonLinearGreatDeluge K) (xs : List (Question K)) :
    (c.InRange → (c.after xs).InRange) ∧ (c.after xs).gamma = c.gamma := by
  induction xs generalizing c with
  | nil => exact ⟨id, rfl⟩
  | cons x xs ih =>
    obtain ⟨hrange, hgamma⟩ := ih (c.step x)
    obtain ⟨hrange', hgamma'⟩ := step_params c x
    exact ⟨fun hc => hrange (hrange' hc), hgamma.trans hgamma'⟩

theorem after_append (c : NonLinearGreatDeluge K) (xs : List (Question K)) (x : Question K) :
    c.after (xs ++ [x]) = (c.after xs).step x := by
  rw [after, List.foldl_append]
  rfl

/-- As long as the best objective is zero a deluge does not begin. -/
theorem after_of_zero (h : c.deluge.level? = none) (hxs : ∀ x ∈ xs, x.best = 0) :
    c.after xs = c := by
  induction xs with
  | nil => rfl
  | cons x xs ih =>
    obtain ⟨hx, hxs⟩ := List.forall_mem_cons.1 hxs
    have hrefused : c.level x.best = .error .zeroInitialValue := by
      rw [hx]
      exact level_zero_of_none h
    rw [after, List.foldl_cons, step_of_refused hrefused]
    exact ih hxs

/-! ## 3. Where the level is zero -/

/-- A decision sees the level zero, by which it divides the distance of its candidate. -/
def DividesByZero (c : NonLinearGreatDeluge K) (best : K) : Prop := c.level best = .ok 0

variable [IsStrictOrderedRing K]

/-- Neither rule leads down to zero from a positive level, unless the best objective is negative. -/
theorem nextLevel_pos (hexp : ∀ y : K, 0 < Elementary.exp y) (hrange : c.InRange)
    {level best : K} (hlevel : 0 < level) (hbest : 0 ≤ best) (candidate : K) :
    0 < c.nextLevel level best candidate := by
  unfold nextLevel
  split
  · rw [Scalar.magnitude_eq_abs]
    exact add_pos_of_pos_of_nonneg hlevel (mul_nonneg hrange.gamma_pos.le (abs_nonneg _))
  · exact add_pos_of_pos_of_nonneg (mul_pos hlevel (hexp _)) hbest

/-- A negative level vanishes at the candidate whose distance, times `gamma`, makes up for it. -/
theorem nextLevel_of_descent (hrange : c.InRange) {level : K} (hlevel : level < 0) (best : K) :
    c.nextLevel level best (level + level / c.gamma) = 0 := by
  have hgamma := hrange.gamma_pos
  have hshift : level / c.gamma < 0 := div_neg_of_neg_of_pos hlevel hgamma
  have hdepth : (level - (level + level / c.gamma)) / level < c.deluge.beta := by
    rw [sub_add_cancel_left]
    exact (div_neg_of_pos_of_neg (neg_pos.2 hshift) hlevel).trans hrange.deluge.beta_pos
  rw [nextLevel, if_pos hdepth, Scalar.magnitude_eq_abs, add_sub_cancel_left, abs_of_neg hshift,
    mul_neg, mul_div_cancel₀ _ hgamma.ne', add_neg_cancel]

/-- The level of a deluge is positive once it is set. -/
structure Afloat (c : NonLinearGreatDeluge K) : Prop where
  inRange : c.InRange
  level_pos : ∀ level, c.deluge.level? = some level → 0 < level

omit [Elementary K] in
/-- The level that a decision sees. -/
theorem Afloat.level_cases (h : c.Afloat) {best : K} (hbest : 0 ≤ best) :
    (c.level best = .error .zeroInitialValue ∧ best = 0) ∨
      ∃ level, c.level best = .ok level ∧ 0 < level := by
  cases hset : c.deluge.level? with
  | some level => exact .inr ⟨level, level_of_some hset best, h.level_pos level hset⟩
  | none =>
    rcases hbest.eq_or_lt with rfl | hpos
    · exact .inl ⟨level_zero_of_none hset, rfl⟩
    · refine .inr ⟨_, level_of_none hset hpos.ne', mul_pos ?_ hpos⟩
      exact zero_lt_one.trans h.inRange.deluge.one_lt_alpha

theorem Afloat.step (hexp : ∀ y : K, 0 < Elementary.exp y) (h : c.Afloat) (hx : 0 ≤ x.best) :
    (c.step x).Afloat := by
  refine ⟨(step_params c x).1 h.inRange, ?_⟩
  rcases h.level_cases hx with ⟨hrefused, -⟩ | ⟨level, hlevel, hpos⟩
  · rw [step_of_refused hrefused]
    exact h.level_pos
  · rw [step_of_level hlevel]
    rintro _ ⟨⟩
    exact nextLevel_pos hexp h.inRange hpos hx _

/-- **A deluge stays afloat** while the best objectives are not negative. -/
theorem Afloat.after (hexp : ∀ y : K, 0 < Elementary.exp y) (h : c.Afloat)
    (hxs : ∀ x ∈ xs, 0 ≤ x.best) : (c.after xs).Afloat := by
  induction xs generalizing c with
  | nil => exact h
  | cons x xs ih =>
    obtain ⟨hx, hxs⟩ := List.forall_mem_cons.1 hxs
    exact ih (h.step hexp hx) hxs

/-- From a negative level a deluge is one decision away from the level zero. -/
theorem dividesByZero_after_descent (hrange : c.InRange) {level best : K}
    (hlevel : (c.after xs).level best = .ok level) (hneg : level < 0) (current best' : K) :
    (c.after (xs ++ [⟨best, current, level + level / c.gamma⟩])).DividesByZero best' := by
  obtain ⟨hafter, hgamma⟩ := after_params c xs
  rw [after_append, step_of_level hlevel]
  refine level_of_some (congrArg some ?_) best'
  rw [← hgamma]
  exact nextLevel_of_descent (hafter hrange) hneg best

/-- **When the non-linear deluge divides by zero.**

While the best objectives are not negative it never does: a decision is refused, with the level
unset and a best objective of zero, or sees a positive level.  Decisions about a best objective of
zero leave a new deluge as it is, and the first other one sets the level to a multiple of its best
objective.  A negative best objective sets a negative level; and wherever the level is negative,
after whatever decisions, there is a candidate after which the next decision divides by zero. -/
theorem level_pos_or_vanishes {alpha beta gamma delta : K} {c : NonLinearGreatDeluge K}
    (made : make alpha beta gamma delta = .ok c) (hexp : ∀ y : K, 0 < Elementary.exp y) :
    (∀ xs : List (Question K), (∀ x ∈ xs, 0 ≤ x.best) → ∀ best, 0 ≤ best →
      ((c.after xs).level best = .error .zeroInitialValue ∧ best = 0) ∨
      ∃ level, (c.after xs).level best = .ok level ∧ 0 < level) ∧
    (∀ xs : List (Question K), (∀ x ∈ xs, x.best = 0) →
      c.after xs = c ∧ c.deluge.level? = none ∧
      (∃ f : Fault K, f.kind = .invalidArgument ∧
        ∀ current candidate, c.accept 0 current candidate = .error f) ∧
      ∀ best, best ≠ 0 → (c.after xs).level best = .ok (alpha * best)) ∧
    (∀ best < 0, alpha * best < 0) ∧
    ∀ (xs : List (Question K)) (best level : K), (c.after xs).level best = .ok level →
      level < 0 → ∀ current best',
        (c.after (xs ++ [⟨best, current, level + level / gamma⟩])).DividesByZero best' := by
  have hrange : c.InRange := Criterion.inRange_of_fresh (.nonLinearGreatDeluge made)
  cases eq_of_make made
  refine ⟨?_, ?_, ?_, ?_⟩
  · intro xs hxs best hbest
    exact (Afloat.after hexp ⟨hrange, by simp⟩ hxs).level_cases hbest
  · intro xs hxs
    rw [after_of_zero rfl hxs]
    exact ⟨rfl, rfl, ⟨.zeroInitialValue, rfl, fun current candidate =>
      accept_of_refused (level_zero_of_none rfl)⟩, fun best hbest => level_of_none rfl hbest⟩
  · intro best hbest
    exact mul_neg_of_pos_of_neg (zero_lt_one.trans hrange.deluge.one_lt_alpha) hbest
  · intro xs best level hlevel hneg current best'
    exact dividesByZero_after_descent hrange hlevel hneg current best'

end NonLinearGreatDeluge

namespace Countdown

/-- A deluge from twice the best objective, halfway to each candidate. -/
def doubleDeluge (K : Type) [Field K] : GreatDeluge K where
  alpha := 2
  beta := 1 / 2

/-- The non-linear deluge that rises by twice the distance. -/
def steepDeluge (K : Type) [Field K] : NonLinearGreatDeluge K where
  deluge := doubleDeluge K
  gamma := 2
  delta := 1

variable [IsStrictOrderedRing K]

theorem make_doubleDeluge : GreatDeluge.make (2 : K) (1 / 2) = .ok (doubleDeluge K) := by
  have hpar : ¬((2 : K) ≤ 1 ∨ ¬((0 : K) < 1 / 2 ∧ (1 / 2 : K) < 1)) := by norm_num
  rw [GreatDeluge.make, if_neg hpar]
  rfl

theorem make_steepDeluge :
    NonLinearGreatDeluge.make (2 : K) (1 / 2) 2 1 = .ok (steepDeluge K) := by
  simp only [NonLinearGreatDeluge.make, Checks.bind_ok_iff, Checks.guard_ok_iff,
    Checks.pure_ok_iff]
  exact ⟨_, make_doubleDeluge, by norm_num, rfl⟩

end Countdown

open Countdown NonLinearGreatDeluge in
/-- The steep deluge sees positive levels only about a best objective of one, begins at two after a
refused decision about zero, and vanishes after a candidate of minus three if the best objective is
minus one. -/
theorem level_pos_or_vanishes_steep :
    (∃ level, ((steepDeluge ℝ).after [⟨1, 2, 3⟩]).level 1 = .ok level ∧ 0 < level) ∧
    ((steepDeluge ℝ).after [⟨0, 2, 3⟩]).level 1 = .ok 2 ∧
    ((steepDeluge ℝ).after [⟨-1, -1, -3⟩]).DividesByZero (-1) := by
  obtain ⟨hpos, hzero, hneg, hdescent⟩ :=
    level_pos_or_vanishes (make_steepDeluge (K := ℝ)) Real.exp_pos
  refine ⟨?_, ?_, ?_⟩
  · rcases hpos [⟨1, 2, 3⟩] (by simp) 1 zero_le_one with ⟨-, h⟩ | h
    · exact absurd h one_ne_zero
    · exact h
  · have hfirst := (hzero [⟨0, 2, 3⟩] (by simp)).2.2.2 1 one_ne_zero
    rwa [mul_one] at hfirst
  · have hfirst := (hzero [] (by simp)).2.2.2 (-1) (by norm_num)
    have hvanish := hdescent [] (-1) _ hfirst (hneg (-1) (by norm_num)) (-1) (-1)
    have hcandidate : (2 * -1 + 2 * -1 / 2 : ℝ) = -3 := by norm_num
    rwa [hcandidate] at hvanish

open Countdown NonLinearGreatDeluge in
/-- Whatever the exponential function, the steep deluge divides by zero in its second decision,
after one about a best objective of minus one. -/
theorem steepDeluge_divides_by_zero :
    NonLinearGreatDeluge.make (2 : ℚ) (1 / 2) 2 1 = .ok (steepDeluge ℚ) ∧
    ∀ [Elementary ℚ] (best : ℚ),
      ((steepDeluge ℚ).after [⟨-1, -1, -3⟩]).DividesByZero best := by
  refine ⟨make_steepDeluge, fun {_} best => ?_⟩
  have hrange : (steepDeluge ℚ).InRange :=
    Criterion.inRange_of_fresh (.nonLinearGreatDeluge make_steepDeluge)
  have hfirst : ((steepDeluge ℚ).after []).level (-1) = .ok (2 * -1) :=
    level_of_none rfl (by norm_num)
  have hvanish := dividesByZero_after_descent hrange hfirst (by norm_num) (-1) best
  have hcandidate : (2 * -1 + 2 * -1 / (steepDeluge ℚ).gamma : ℚ) = -3 := by
    norm_num [steepDeluge]
  rwa [hcandidate] at hvanish

/-! ## 4. Starting above the best solution -/

/-- **A deluge starts above the best solution where that has a positive objective.**  The first
level of either deluge lies above the best objective in that case and no other.  In that case and
no other the first decision takes every candidate that is no worse than the best solution, and
leaves the linear deluge with a level above the candidate. -/
theorem deluge_starts_above_iff [IsStrictOrderedRing K] [Elementary K] :
    (∀ {alpha beta : K} {c : GreatDeluge K}, GreatDeluge.make alpha beta = .ok c → ∀ best,
      c.level best = alpha * best ∧ (best < c.level best ↔ 0 < best) ∧
      ((∀ candidate ≤ best, (c.accept best candidate).1 = true ∧
        ∀ best', candidate < (c.accept best candidate).2.level best') ↔ 0 < best)) ∧
    ∀ {alpha beta gamma delta : K} {c : NonLinearGreatDeluge K},
      NonLinearGreatDeluge.make alpha beta gamma delta = .ok c → ∀ best ≠ 0,
      c.level best = .ok (alpha * best) ∧ (best < alpha * best ↔ 0 < best) ∧
      ((∀ candidate ≤ best, ∀ current, ∃ d, c.accept best current candidate = .ok (true, d)) ↔
        0 < best) := by
  constructor
  · intro alpha beta c made best
    have hrange : c.InRange := Criterion.inRange_of_fresh (.greatDeluge made)
    cases GreatDeluge.eq_of_make made
    have habove := GreatDeluge.lt_alpha_mul_iff hrange.one_lt_alpha best
    refine ⟨rfl, habove, ?_, ?_⟩
    · -- the best solution itself is a candidate
      intro htaken
      exact habove.1 (sub_pos.1 (of_decide_eq_true (htaken best le_rfl).1))
    · intro hpos candidate hle
      exact GreatDeluge.accept_of_lt hrange (habove.2 hpos) hle
  · intro alpha beta gamma delta c made best hbest
    have hrange : c.InRange := Criterion.inRange_of_fresh (.nonLinearGreatDeluge made)
    cases NonLinearGreatDeluge.eq_of_make made
    have hlevel := NonLinearGreatDeluge.level_of_none
      (c := { deluge := { alpha, beta }, gamma, delta }) rfl hbest
    have habove := GreatDeluge.lt_alpha_mul_iff hrange.deluge.one_lt_alpha best
    refine ⟨hlevel, habove, ?_, ?_⟩
    · -- the best solution is taken for the level alone, where it is the current one too
      intro htaken
      obtain ⟨d, hd⟩ := htaken best le_rfl best
      rw [NonLinearGreatDeluge.accept_of_level hlevel, Except.ok.injEq, Prod.mk.injEq,
        Bool.or_eq_true, decide_eq_true_eq, decide_eq_true_eq] at hd
      exact habove.1 (hd.1.resolve_right (lt_irrefl best))
    · intro hpos candidate hle current
      have hbelow : candidate < alpha * best := hle.trans_lt (habove.2 hpos)
      rw [NonLinearGreatDeluge.accept_of_level hlevel, decide_eq_true hbelow, Bool.true_or]
      exact ⟨_, rfl⟩

open Countdown in
/-- The deluge takes the best solution as its first candidate, about an objective of three. -/
theorem deluge_starts_above_three :
    ((doubleDeluge ℝ).accept 3 3).1 = true ∧
    ∃ d, (steepDeluge ℝ).accept 3 3 3 = .ok (true, d) := by
  obtain ⟨hlinear, hsteep⟩ := deluge_starts_above_iff (K := ℝ)
  constructor
  · exact ((hlinear make_doubleDeluge 3).2.2.2 (by norm_num) 3 le_rfl).1
  · exact (hsteep make_steepDeluge 3 (by norm_num)).2.2.2 (by norm_num) 3 le_rfl 3

/-- About an objective of minus one the level starts at minus two, and the best solution is turned
down. -/
theorem deluge_starts_below_negative :
    ∃ c : GreatDeluge ℚ, GreatDeluge.make 2 (1 / 2) = .ok c ∧ c.level (-1) = -2 ∧
      (-2 : ℚ) < -1 ∧ (c.accept (-1) (-1)).1 = false := by
  refine ⟨Countdown.doubleDeluge ℚ, Countdown.make_doubleDeluge, ?_, by norm_num, ?_⟩
  · norm_num [GreatDeluge.level, Countdown.doubleDeluge]
  · norm_num [GreatDeluge.accept, GreatDeluge.level, Countdown.doubleDeluge]

end LargeNeighbourhood
