/-
# Criteria at the ends of their ranges

With some parameters a criterion decides like a simpler one, whatever it decided before
(`Criterion.Decides`).

* A schedule whose start is its end has no room to move: a step leads neither below the floor nor up
  (`Schedule.next_floor`).  So random acceptance with a constant chance, and threshold acceptance with
  a constant threshold, are never changed by a decision.
* Late acceptance without a lookback records nothing, and is never changed either.
* A moving average of one candidate does change, but its window then holds nothing except the
  candidate it decides about, which is never above its own average (`MovingAverage.accept_of_one`).

A fraction lies between zero, included, and one, so a chance of zero never comes true and a chance of
one always does.  Still random acceptance is no random walk to the rest of a search: it draws.  The
last section counts the words that decisions draw, for all criteria in any state.
-/
import Mathlib
import LargeNeighbourhood.Proofs.Acceptance.Decay
import LargeNeighbourhood.Proofs.Acceptance.Windows
import LargeNeighbourhood.Proofs.Random.Permutations

namespace LargeNeighbourhood

open Act

/-! ## 1. Fixed rules -/

namespace Criterion

section Rules

variable {K : Type} [Scalar K] [Elementary K] {c : Criterion K} {rule : K → K → Bool}

/-- Whatever it decided before, the criterion answers by a rule about the current objective and the
candidate's. -/
def Decides (c : Criterion K) (rule : K → K → Bool) : Prop :=
  ∀ xs x, (c.after xs).answer x = .ok (rule x.current x.candidate)

/-- A criterion that decisions do not change answers by the rule of its first answer. -/
theorem decides_of_step_eq (hstep : ∀ x, c.step x = c)
    (hanswer : ∀ x, c.answer x = .ok (rule x.current x.candidate)) : c.Decides rule := by
  intro xs x
  rw [after_of_step_eq hstep, hanswer]

theorem decides_hillClimbing :
    (hillClimbing : Criterion K).Decides fun current candidate => decide (candidate ≤ current) :=
  decides_of_step_eq (fun _ => rfl) fun _ => rfl

theorem decides_randomWalk : (randomWalk : Criterion K).Decides fun _ _ => true :=
  decides_of_step_eq (fun _ => rfl) fun _ => rfl

/-- **Without a lookback** a candidate has to be better than the current solution. -/
theorem decides_lateAcceptance {s : LateAcceptance K} (hnew : s.history = [])
    (hzero : s.lookback = 0) :
    (lateAcceptance s).Decides fun current candidate => decide (candidate < current) := by
  refine decides_of_step_eq (step_lateAcceptance_of_zero hnew hzero) fun x => ?_
  rw [answer_lateAcceptance, LateAcceptance.accept_of_lookback_zero hzero hnew]

end Rules

end Criterion

/-! ## 2. Schedules without room -/

section Constant

variable {K : Type} [Field K] [LinearOrder K] [IsStrictOrderedRing K] {p step : K}
  {method : Schedule}

/-- On its floor a schedule stays. -/
theorem Schedule.next_floor (hfloor : 0 ≤ p) (hstep : method.Admits step) :
    method.next p p step = p :=
  le_antisymm (next_le hfloor le_rfl le_rfl le_rfl hstep) (le_next _ _ _ _)

namespace Criterion

variable [Elementary K] {rule : K → K → Bool}

/-- **Random acceptance with a constant chance** answers by what does not depend on the fraction. -/
theorem decides_randomAccept {r : RandomAccept K} (made : RandomAccept.make p p step method = .ok r)
    (hrule : ∀ u current candidate : K, 0 ≤ u → u < 1 →
      (decide (candidate < current) || decide (u < p)) = rule current candidate) :
    (randomAccept r).Decides rule := by
  have hrange : r.InRange := inRange_of_fresh (.randomAccept made)
  cases RandomAccept.eq_of_make made
  refine decides_of_step_eq (fun x => ?_) fun x => ?_
  · rw [step_randomAccept, RandomAccept.advance]
    simp only [Schedule.next_floor hrange.finish_nonneg hrange.admits]
  · rw [answer_randomAccept,
      hrule x.fraction _ _ (Draw.fraction_nonneg _) (Draw.uniform_lt_one x.rng)]

theorem decides_randomAccept_zero {r : RandomAccept K}
    (made : RandomAccept.make 0 0 step method = .ok r) :
    (randomAccept r).Decides fun current candidate => decide (candidate < current) :=
  decides_randomAccept made fun u current candidate hu _ => by
    rw [decide_eq_false (not_lt.2 hu), Bool.or_false]

theorem decides_randomAccept_one {r : RandomAccept K}
    (made : RandomAccept.make 1 1 step method = .ok r) : (randomAccept r).Decides fun _ _ => true :=
  decides_randomAccept made fun u current candidate _ hu => by
    rw [decide_eq_true hu, Bool.or_true]

/-- **Threshold acceptance with no gap to spare** takes what is no worse than the current
solution. -/
theorem decides_thresholdAcceptance {r : RecordToRecord K}
    (made : RecordToRecord.make 0 0 step method = .ok r) :
    (thresholdAcceptance r).Decides fun current candidate => decide (candidate ≤ current) := by
  have hrange : r.InRange := inRange_of_fresh (.thresholdAcceptance made)
  cases RecordToRecord.eq_of_make made
  refine decides_of_step_eq (fun x => ?_) fun x => ?_
  · rw [step_thresholdAcceptance]
    simp only [Schedule.next_floor hrange.finish_nonneg hrange.admits]
  · rw [answer_thresholdAcceptance]
    simp only [sub_nonpos]

end Criterion

end Constant

/-! ## 3. A window of one candidate -/

section Alone

variable {K : Type} [Field K] [LinearOrder K]

/-- A candidate that is alone in its window is taken, and is all the window holds afterwards. -/
theorem MovingAverage.accept_of_one {s : MovingAverage K} (hone : s.gamma = 1)
    (hlength : s.history.length ≤ 1) (y : K) : s.accept y = (true, { s with history := [y] }) := by
  have hrecord : s.record y = { s with history := [y] } := by
    obtain ⟨eta, gamma, history⟩ := s
    cases hone
    match history, hlength with
    | [], _ => rfl
    | [a], _ => rfl
  have hthreshold : s.threshold y [] = y := by
    simp [threshold_eq, Scalar.least]
  simp only [accept, hrecord, decide_eq_true_eq, Prod.mk.injEq, and_true]
  exact hthreshold.ge

/-- **A moving average of one candidate** takes all. -/
theorem Criterion.decides_movingAverage [Elementary K] {eta : K} {s : MovingAverage K}
    (made : MovingAverage.make eta 1 = .ok s) : (movingAverage s).Decides fun _ _ => true := by
  intro xs x
  obtain ⟨t, ht, hone, hlength⟩ : ∃ t, (movingAverage s).after xs = movingAverage t ∧
      t.gamma = 1 ∧ t.history.length ≤ 1 := by
    -- the window is empty at first, and holds the last candidate ever after
    refine after_induction (P := fun c => ∃ t, c = movingAverage t ∧ t.gamma = 1 ∧
      t.history.length ≤ 1) ⟨s, rfl, ?_⟩ ?_ xs
    · cases MovingAverage.eq_of_make made
      exact ⟨rfl, Nat.zero_le 1⟩
    · rintro - y ⟨t, rfl, hone, hlength⟩
      rw [step_movingAverage, MovingAverage.accept_of_one hone hlength]
      exact ⟨_, rfl, hone, le_rfl⟩
  rw [ht, answer_movingAverage, MovingAverage.accept_of_one hone hlength]

end Alone

/-! ## 4. Words -/

namespace Criterion

section Words

variable {K : Type} [Scalar K] [Elementary K]

/-- How many words a decision draws. -/
def words : Criterion K → Occasion K → Nat
  | simulatedAnnealing _, _ => 1
  | randomAccept _, x => if x.candidate < x.current then 0 else 1
  | _, _ => 0

/-- **A decision moves the generator by its words**, also one that fails. -/
theorem rng_face (c : Criterion K) (x : Occasion K) :
    (c.face x).2.rng = x.rng.skip (c.words x) := by
  cases c with
  | simulatedAnnealing s =>
    obtain ⟨said, h⟩ := SimulatedAnnealing.result_accept x.current x.candidate ⟨s, x.rng, x.lines⟩
    rw [face, accept_simulatedAnnealing, h]
    rfl
  | randomAccept r =>
    rw [face, accept_randomAccept, RandomAccept.accept, words]
    split
    · rfl
    · rfl
  | nonLinearGreatDeluge d =>
    -- it may fail, but draws nothing in either case
    rw [face, accept_nonLinearGreatDeluge]
    split
    · rfl
    · rfl
  | _ => rfl

/-- Decisions do not make another kind of criterion, so what is drawn about an occasion stays the
same. -/
theorem words_step (c : Criterion K) (x y : Occasion K) : (c.step y).words x = c.words x := by
  cases c with
  | simulatedAnnealing s => rw [step_simulatedAnnealing, words, words]
  | randomAccept r => rw [step_randomAccept, words, words]
  | nonLinearGreatDeluge d =>
    rw [step, face, accept_nonLinearGreatDeluge]
    split
    · rfl
    · rfl
  | _ => rfl

theorem words_after (c : Criterion K) (xs : List (Occasion K)) (x : Occasion K) :
    (c.after xs).words x = c.words x :=
  after_induction (P := fun d => d.words x = c.words x) rfl
    (fun d y hd => (words_step d x y).trans hd) xs

end Words

end Criterion

/-- **Degenerate criteria coincide decision by decision**, after any decisions before, about any
solutions and with any generators.  Late acceptance without a lookback and random acceptance with no
chance take what is better than the current solution; threshold acceptance with a threshold of zero
takes what is no worse, as hill climbing does; random acceptance with a chance of one and a moving
average of one candidate take everything, as a random walk does.  Random acceptance draws one word
where the candidate is not better and none where it is, annealing always draws one, and the others
leave the generator as it is. -/
theorem degenerate_criteria_coincide {K : Type} [Field K] [LinearOrder K] [IsStrictOrderedRing K]
    [Elementary K] :
    (∀ greedy betterHistory, ∃ s, LateAcceptance.make 0 greedy betterHistory = .ok s ∧
      (Criterion.lateAcceptance s : Criterion K).Decides
        fun current candidate => decide (candidate < current)) ∧
    (∀ (step : K) method r, RandomAccept.make 0 0 step method = .ok r →
      (Criterion.randomAccept r).Decides fun current candidate => decide (candidate < current)) ∧
    (Criterion.hillClimbing : Criterion K).Decides
      (fun current candidate => decide (candidate ≤ current)) ∧
    (∀ (step : K) method r, RecordToRecord.make 0 0 step method = .ok r →
      (Criterion.thresholdAcceptance r).Decides
        fun current candidate => decide (candidate ≤ current)) ∧
    (Criterion.randomWalk : Criterion K).Decides (fun _ _ => true) ∧
    (∀ (step : K) method r, RandomAccept.make 1 1 step method = .ok r →
      (Criterion.randomAccept r).Decides fun _ _ => true) ∧
    (∀ (eta : K) s, MovingAverage.make eta 1 = .ok s →
      (Criterion.movingAverage s).Decides fun _ _ => true) ∧
    (∀ r xs (x : Occasion K), (((Criterion.randomAccept r).after xs).face x).2.rng
      = if x.current ≤ x.candidate then x.rng.next.2 else x.rng) ∧
    (∀ s xs (x : Occasion K),
      (((Criterion.simulatedAnnealing s).after xs).face x).2.rng = x.rng.next.2) ∧
    ∀ c : Criterion K, (∀ r, c ≠ .randomAccept r) → (∀ s, c ≠ .simulatedAnnealing s) →
      ∀ xs x, ((c.after xs).face x).2.rng = x.rng := by
  have hrng : ∀ (c : Criterion K) xs x, ((c.after xs).face x).2.rng = x.rng.skip (c.words x) :=
    fun c xs x => by rw [Criterion.rng_face, Criterion.words_after]
  refine ⟨fun greedy betterHistory => ⟨_, rfl, Criterion.decides_lateAcceptance rfl rfl⟩,
    fun step method r made => Criterion.decides_randomAccept_zero made,
    Criterion.decides_hillClimbing,
    fun step method r made => Criterion.decides_thresholdAcceptance made,
    Criterion.decides_randomWalk,
    fun step method r made => Criterion.decides_randomAccept_one made,
    fun eta s made => Criterion.decides_movingAverage made, fun r xs x => ?_,
    fun s xs x => hrng _ xs x, fun c hrandom hannealing xs x => ?_⟩
  · rw [hrng, Criterion.words]
    by_cases h : x.candidate < x.current
    · rw [if_pos h, if_neg (not_le.2 h)]
      rfl
    · rw [if_neg h, if_pos (not_lt.1 h)]
      rfl
  · rw [hrng]
    cases c with
    | randomAccept r => exact absurd rfl (hrandom r)
    | simulatedAnnealing s => exact absurd rfl (hannealing s)
    | _ => rfl

namespace Countdown

theorem make_constant_chance {p : ℝ} (hp : 0 ≤ p ∧ p ≤ 1) :
    RandomAccept.make p p (1 / 2) .linear = .ok ⟨p, p, 1 / 2, .linear, p⟩ := by
  simp only [RandomAccept.make, Checks.guard_ok_iff, Checks.pure_ok_iff]
  exact ⟨not_not.2 ⟨hp.1, le_rfl, hp.2⟩, by norm_num, by norm_num [Schedule.refusesStep], trivial⟩

theorem make_no_gap :
    RecordToRecord.make (0 : ℝ) 0 (1 / 2) .exponential = .ok ⟨0, 0, 1 / 2, .exponential, 0⟩ := by
  simp only [RecordToRecord.make, Checks.guard_ok_iff, Checks.pure_ok_iff]
  exact ⟨by norm_num, lt_irrefl _, by norm_num [Schedule.refusesStep], trivial⟩

theorem make_window_of_one : MovingAverage.make (1 / 2 : ℝ) 1 = .ok ⟨1 / 2, 1, []⟩ := by
  simp only [MovingAverage.make, Checks.guard_ok_iff, Checks.pure_ok_iff]
  exact ⟨by norm_num [Scalar.within], by decide, rfl⟩

/-- A candidate that is as good as the current solution. -/
noncomputable def tie : Occasion ℝ := ⟨0, 1, 1, ⟨0, 1⟩, #[]⟩

end Countdown

open Countdown in
/-- After two decisions about other solutions, a candidate that is as good as the current solution is
refused where it has to be better and taken where it may be as good, and random acceptance has drawn
a word for a decision that was certain. -/
theorem degenerate_criteria_coincide_tie :
    let xs := [bumpy 0, bumpy 1]
    (∃ s, LateAcceptance.make 0 true true = .ok s ∧
      ((Criterion.lateAcceptance s).after xs).answer tie = .ok false) ∧
    (∃ r, RandomAccept.make 0 0 (1 / 2) .linear = .ok r ∧
      ((Criterion.randomAccept r).after xs).answer tie = .ok false) ∧
    (∃ r, RecordToRecord.make 0 0 (1 / 2) .exponential = .ok r ∧
      ((Criterion.thresholdAcceptance r).after xs).answer tie = .ok true) ∧
    (∃ r, RandomAccept.make 1 1 (1 / 2) .linear = .ok r ∧
      ((Criterion.randomAccept r).after xs).answer tie = .ok true ∧
      (((Criterion.randomAccept r).after xs).face tie).2.rng = tie.rng.next.2) ∧
    ∃ s, MovingAverage.make (1 / 2) 1 = .ok s ∧
      ((Criterion.movingAverage s).after xs).answer tie = .ok true := by
  intro xs
  obtain ⟨hlate, hnever, -, hthreshold, -, halways, haverage, hdraws, -, -⟩ :=
    degenerate_criteria_coincide (K := ℝ)
  obtain ⟨s, hs, hdecides⟩ := hlate true true
  have hbetter : decide (tie.candidate < tie.current) = false := decide_eq_false (lt_irrefl 1)
  have hnoworse : tie.candidate ≤ tie.current := le_refl 1
  have hnever := hnever _ _ _ (make_constant_chance ⟨le_rfl, zero_le_one⟩) xs tie
  have hthreshold := hthreshold _ _ _ make_no_gap xs tie
  have hone := make_constant_chance ⟨zero_le_one, le_rfl⟩
  refine ⟨⟨s, hs, (hdecides xs tie).trans (congrArg _ hbetter)⟩,
    ⟨_, make_constant_chance ⟨le_rfl, zero_le_one⟩, hnever.trans (congrArg _ hbetter)⟩,
    ⟨_, make_no_gap, hthreshold.trans (congrArg _ (decide_eq_true hnoworse))⟩,
    ⟨_, hone, halways _ _ _ hone xs tie, ?_⟩,
    ⟨_, make_window_of_one, haverage _ _ make_window_of_one xs tie⟩⟩
  rw [hdraws]
  exact if_pos hnoworse

end LargeNeighbourhood
