/-
# Candidates that are no worse

Hill climbing compares a candidate with the current solution.  Threshold acceptance and annealing
look at the difference of the two objectives instead: the one compares it with a threshold, the
other divides it by a temperature, takes the exponential and compares that with a fraction.

Over the numbers of binary64 the difference says less than the comparison.  Rounding does no harm:
a difference keeps its sign, a quotient too, and no fraction exceeds one.  Nor do the decisions of
a run: a threshold does not become negative (`RecordToRecord.Steady`), and a temperature stays
positive and finite (`SimulatedAnnealing.Steady`).  But an infinity less itself is no number, and
no number compares with that.  So a candidate that is as infeasible as the current solution is no
worse, is taken by hill climbing, and is refused by the other two; it is the only one
(`no_worse_refused_iff`).
-/
import Mathlib
import LargeNeighbourhood.Proofs.Acceptance.Decay
import LargeNeighbourhood.Proofs.Scalar.Operations

namespace LargeNeighbourhood

open Scalar

/-! ## 1. Differences and steps -/

namespace Binary64

variable {a b x y : Float}

/-- The difference to something no worse is up to any value that is not negative, if it is a
number. -/
theorem difference_le_iff {current candidate t : Float} (ht : 0 ≤ t)
    (hle : candidate ≤ current) :
    candidate - current ≤ t ↔ ¬(current.isInf = true ∧ candidate = current) := by
  constructor
  · rintro hdifference ⟨hinf, rfl⟩
    have hnan := isNaN_sub_self hinf
    rw [(numbers_binary64.of_le hdifference).1] at hnan
    cases hnan
  · intro hne
    refine le_trans (sub_nonpos hle ?_) ht
    rintro ⟨hinf, rfl⟩
    exact hne ⟨hinf, rfl⟩

theorem nonneg_upper (h : 0 ≤ a) (b : Float) : 0 ≤ upper a b := by
  unfold upper
  split
  · rename_i hlt
    exact le_trans h (le_of_lt hlt)
  · exact h

theorem pos_upper (h : 0 < a) (b : Float) : 0 < upper a b := by
  unfold upper
  split
  · rename_i hlt
    exact lt_of_lt_of_le h (le_of_lt hlt)
  · exact h

/-- A step that a schedule admits does not lead up. -/
theorem advance_le {m : Schedule} (hx : 0 < x) (hfinite : x.isFinite = true) (hy : m.Admits y) :
    m.advance x y ≤ x := by
  cases m with
  | linear => exact sub_le_self hx hfinite hy.nonneg
  | exponential => exact mul_le_self hx hfinite hy.nonneg (hy.shrinks rfl).2

/-- A finite value above a positive floor takes a step to a finite value. -/
theorem isFinite_next {m : Schedule} (ha : 0 < a) (ha' : a.isFinite = true) (hx : 0 < x)
    (hfinite : x.isFinite = true) (hy : m.Admits y) : (m.next a x y).isFinite = true := by
  unfold Schedule.next upper
  split
  · rename_i hlt
    exact isFinite_of_le (le_trans (le_of_lt ha) (le_of_lt hlt)) (advance_le hx hfinite hy) hfinite
  · exact ha'

end Binary64

/-! ## 2. What decisions keep -/

open Binary64

/-- A threshold that is not negative and does not become so. -/
structure RecordToRecord.Steady (r : RecordToRecord Float) : Prop where
  finish : 0 ≤ r.finish
  threshold : 0 ≤ r.threshold

/-- A temperature that is positive and finite and stays so. -/
structure SimulatedAnnealing.Steady (s : SimulatedAnnealing Float) : Prop where
  inRange : s.InRange
  finish : s.finish.isFinite = true
  temperature_pos : 0 < s.temperature
  temperature : s.temperature.isFinite = true

theorem RecordToRecord.steady_of_make {start finish step : Float} {method : Schedule}
    {r : RecordToRecord Float} (made : make start finish step method = .ok r)
    (hstart : start.isFinite = true) (hfinish : finish.isFinite = true)
    (hstep : step.isFinite = true) : r.Steady := by
  have hrange := (inRange_iff_of_make numbers_binary64 made).2
    ⟨isNaN_of_isFinite hstart, isNaN_of_isFinite hfinish, isNaN_of_isFinite hstep⟩
  cases eq_of_make made
  exact ⟨hrange.finish_nonneg, le_trans hrange.finish_nonneg hrange.finish_le⟩

theorem SimulatedAnnealing.steady_of_make {start finish step : Float} {method : Schedule}
    {verbose : Bool} {s : SimulatedAnnealing Float}
    (made : make start finish step method verbose = .ok s) (hstart : start.isFinite = true)
    (hfinish : finish.isFinite = true) (hstep : step.isFinite = true) : s.Steady := by
  have hrange := (inRange_iff_of_make numbers_binary64 made).2
    ⟨isNaN_of_isFinite hstart, isNaN_of_isFinite hfinish, isNaN_of_isFinite hstep⟩
  cases eq_of_make made
  exact ⟨hrange, hfinish, lt_of_lt_of_le hrange.finish_pos hrange.finish_le, hstart⟩

/-- A decision keeps it, whatever it says. -/
theorem SimulatedAnnealing.Steady.settle {s : SimulatedAnnealing Float} (h : s.Steady)
    (probability : Float) (taken : Bool) : (s.settle probability taken).Steady where
  inRange := ⟨h.inRange.finish_pos, h.inRange.finish_le, h.inRange.admits⟩
  finish := h.finish
  temperature_pos := pos_upper h.inRange.finish_pos _
  temperature :=
    isFinite_next h.inRange.finish_pos h.finish h.temperature_pos h.temperature h.inRange.admits

namespace Criterion

variable [Elementary Float] {xs : List (Occasion Float)} {x : Occasion Float}

theorem after_hillClimbing (xs : List (Occasion Float)) :
    (hillClimbing : Criterion Float).after xs = hillClimbing :=
  after_of_step_eq (fun _ => step_hillClimbing) xs

theorem exists_steady_threshold {r : RecordToRecord Float} (h : r.Steady)
    (xs : List (Occasion Float)) :
    ∃ r', (thresholdAcceptance r).after xs = thresholdAcceptance r' ∧ r'.Steady := by
  refine after_induction (P := fun c => ∃ r', c = thresholdAcceptance r' ∧ r'.Steady) ⟨r, rfl, h⟩
    ?_ xs
  rintro - x ⟨r', rfl, hsteady⟩
  exact ⟨_, step_thresholdAcceptance r', hsteady.finish, nonneg_upper hsteady.finish _⟩

theorem exists_steady_annealing {s : SimulatedAnnealing Float} (h : s.Steady)
    (xs : List (Occasion Float)) :
    ∃ s', (simulatedAnnealing s).after xs = simulatedAnnealing s' ∧ s'.Steady := by
  refine after_induction (P := fun c => ∃ s', c = simulatedAnnealing s' ∧ s'.Steady) ⟨s, rfl, h⟩
    ?_ xs
  rintro - x ⟨s', rfl, hsteady⟩
  exact ⟨_, step_simulatedAnnealing s', hsteady.settle _ _⟩

/-! ## 3. Answers -/

/-- No fraction compares with a chance that is no number. -/
theorem not_le_exp (hnan : ∀ y : Float, y.isNaN = true → (Elementary.exp y).isNaN = true)
    {current : Float} (hinf : current.isInf = true) (t u : Float) :
    ¬u ≤ Elementary.exp ((current - current) / t) := by
  intro hchance
  have hchance' := hnan _ (isNaN_div (isNaN_sub_self hinf) t)
  rw [(numbers_binary64.of_le hchance).2] at hchance'
  cases hchance'

/-- Annealing takes the exponential of the difference over a temperature, and compares that with
what is at most one. -/
theorem le_exp_iff (hexp : ∀ y : Float, 0 ≤ y → 1 ≤ Elementary.exp y)
    (hnan : ∀ y : Float, y.isNaN = true → (Elementary.exp y).isNaN = true)
    {current candidate t u : Float} (ht : 0 < t) (hfinite : t.isFinite = true) (hu : u ≤ 1)
    (hle : candidate ≤ current) :
    u ≤ Elementary.exp ((current - candidate) / t)
      ↔ ¬(current.isInf = true ∧ candidate = current) := by
  constructor
  · rintro hchance ⟨hinf, rfl⟩
    exact not_le_exp hnan hinf t u hchance
  · intro hne
    have hdifference := sub_nonneg hle fun h => hne ⟨h.1, h.2.symm⟩
    exact le_trans hu (hexp _ (div_nonneg hdifference ht hfinite))

/-- The criteria that ask whether a candidate is worse than the current solution, as their
constructors make them of finite parameters. -/
inductive Comparing : Criterion Float → Prop
  | hillClimbing : Comparing hillClimbing
  | thresholdAcceptance {start finish step : Float} {method : Schedule} {r : RecordToRecord Float}
      (made : RecordToRecord.make start finish step method = .ok r)
      (hstart : start.isFinite = true) (hfinish : finish.isFinite = true)
      (hstep : step.isFinite = true) : Comparing (thresholdAcceptance r)
  | simulatedAnnealing {start finish step : Float} {method : Schedule} {verbose : Bool}
      {s : SimulatedAnnealing Float}
      (made : SimulatedAnnealing.make start finish step method verbose = .ok s)
      (hstart : start.isFinite = true) (hfinish : finish.isFinite = true)
      (hstep : step.isFinite = true) : Comparing (simulatedAnnealing s)

/-- **Which candidates that are no worse than the current solution are refused**: those that are
as infeasible as it, with the same infinite objective, and by all of these criteria but hill
climbing.  This is so after any decisions, whatever is drawn. -/
theorem no_worse_refused_iff (hexp : ∀ y : Float, 0 ≤ y → 1 ≤ Elementary.exp y)
    (hnan : ∀ y : Float, y.isNaN = true → (Elementary.exp y).isNaN = true)
    {c : Criterion Float} (hc : c.Comparing) (xs : List (Occasion Float)) (x : Occasion Float)
    (hle : x.candidate ≤ x.current) :
    ∃ taken, (c.after xs).answer x = .ok taken ∧
      (taken = false
        ↔ c ≠ .hillClimbing ∧ x.current.isInf = true ∧ x.candidate = x.current) := by
  cases hc with
  | hillClimbing =>
    rw [after_hillClimbing, answer_hillClimbing, decide_eq_true hle]
    exact ⟨true, rfl, by simp⟩
  | thresholdAcceptance made hstart hfinish hstep =>
    obtain ⟨r', hr', hsteady⟩ :=
      exists_steady_threshold (RecordToRecord.steady_of_make made hstart hfinish hstep) xs
    rw [hr', answer_thresholdAcceptance]
    refine ⟨_, rfl, ?_⟩
    rw [decide_eq_false_iff_not, difference_le_iff hsteady.threshold hle, not_not]
    simp
  | simulatedAnnealing made hstart hfinish hstep =>
    obtain ⟨s', hs', hsteady⟩ :=
      exists_steady_annealing (SimulatedAnnealing.steady_of_make made hstart hfinish hstep) xs
    have hfraction : x.fraction ≤ 1 := fraction_le_one _
    rw [hs', answer_simulatedAnnealing]
    refine ⟨_, rfl, ?_⟩
    rw [decide_eq_false_iff_not, le_exp_iff hexp hnan hsteady.temperature_pos
      hsteady.temperature hfraction hle, not_not]
    simp

end Criterion

/-! ## 4. Equal objectives -/

/-- Functions of which the exponential is one from zero on and zero below, and NaN at NaN. -/
@[reducible] def flat : Elementary Float where
  exp y := if 0 ≤ y then 1 else if y < 0 then 0 else y
  log := id
  sqrt := id
  pow y _ := y

theorem one_le_flat (y : Float) (hy : 0 ≤ y) : 1 ≤ flat.exp y := by
  show 1 ≤ ite _ _ _
  rw [if_pos hy]
  decide

theorem isNaN_flat (y : Float) (hy : y.isNaN = true) : (flat.exp y).isNaN = true := by
  have hle : ¬0 ≤ y := fun h => by
    rw [(numbers_binary64.of_le h).2] at hy
    cases hy
  have hlt : ¬y < 0 := fun h => by
    rw [(numbers_binary64.of_lt h).1] at hy
    cases hy
  show (ite _ _ _ : Float).isNaN = true
  rw [if_neg hle, if_neg hlt]
  exact hy

namespace Plateau

/-- Three solutions with one objective. -/
def occasion (y : Float) : Occasion Float := ⟨y, y, y, .standard, #[]⟩

/-- Annealing from two down to one. -/
def annealing : SimulatedAnnealing Float where
  start := 2
  finish := 1
  step := 0.9
  method := .exponential
  verbose := false
  temperature := 2
  probability := 0

theorem make_annealing :
    SimulatedAnnealing.make (2 : Float) 1 0.9 .exponential false = .ok annealing := by
  simp only [SimulatedAnnealing.make, Checks.guard_ok_iff, Checks.pure_ok_iff]
  refine ⟨by decide, by decide, by decide, rfl⟩

/-- A threshold of one that stays. -/
def threshold : RecordToRecord Float where
  start := 1
  finish := 1
  step := 0
  method := .linear
  threshold := 1

theorem make_threshold : RecordToRecord.make (1 : Float) 1 0 .linear = .ok threshold := by
  simp only [RecordToRecord.make, Checks.guard_ok_iff, Checks.pure_ok_iff]
  refine ⟨by decide, by decide, by decide, rfl⟩

theorem comparing_annealing : (Criterion.simulatedAnnealing annealing).Comparing :=
  .simulatedAnnealing make_annealing (by decide) (by decide) (by decide)

end Plateau

open Plateau

/-- Annealing that met an infinite plateau refuses it, and takes a finite one afterwards. -/
theorem no_worse_refused_iff_annealing :
    letI := flat
    (Criterion.simulatedAnnealing annealing).answer (occasion (1 / 0)) = .ok false ∧
      ((Criterion.simulatedAnnealing annealing).after [occasion (1 / 0)]).answer (occasion 3)
        = .ok true := by
  let := flat
  obtain ⟨taken, hanswer, hiff⟩ := Criterion.no_worse_refused_iff one_le_flat isNaN_flat
    comparing_annealing [] (occasion (1 / 0)) (by decide)
  obtain ⟨taken', hanswer', hiff'⟩ := Criterion.no_worse_refused_iff one_le_flat isNaN_flat
    comparing_annealing [occasion (1 / 0)] (occasion 3) (by decide)
  have hinfinite : taken = false := hiff.2 ⟨by simp, by decide, rfl⟩
  have hfinite : taken' = true := by
    rw [← Bool.not_eq_false]
    exact fun h => absurd (hiff'.1 h).2.1 (by decide)
  rw [hinfinite] at hanswer
  rw [hfinite] at hanswer'
  exact ⟨hanswer, hanswer'⟩

/-- On an infinite plateau the candidate is no worse, hill climbing takes it, and a threshold and
annealing with any exponential refuse it. -/
theorem infinite_plateau_refused :
    (occasion (1 / 0)).candidate ≤ (occasion (1 / 0)).current ∧
      (Criterion.hillClimbing : Criterion Float).answer (occasion (1 / 0)) = .ok true ∧
      RecordToRecord.make (1 : Float) 1 0 .linear = .ok threshold ∧
      (Criterion.thresholdAcceptance threshold).answer (occasion (1 / 0)) = .ok false ∧
      SimulatedAnnealing.make (2 : Float) 1 0.9 .exponential false = .ok annealing ∧
      ∀ e : Elementary Float, (∀ y : Float, y.isNaN = true → (e.exp y).isNaN = true) →
        (Criterion.simulatedAnnealing annealing).answer (occasion (1 / 0)) = .ok false := by
  refine ⟨by decide, ?_, make_threshold, ?_, make_annealing, ?_⟩
  · rw [Criterion.answer_hillClimbing]
    exact congrArg Except.ok (decide_eq_true (by decide))
  · rw [Criterion.answer_thresholdAcceptance]
    exact congrArg Except.ok (decide_eq_false (by decide))
  · intro e hnan
    rw [Criterion.answer_simulatedAnnealing]
    exact congrArg Except.ok (decide_eq_false (Criterion.not_le_exp hnan (by decide) _ _))

end LargeNeighbourhood
