/-
# Fitted annealing

`SimulatedAnnealing.fit` is asked for a chance: a candidate that is worse than the first objective
by a given fraction of it shall be taken with a given probability.  The chance at a temperature is
known, so the temperature is (`startFor`), and with the first decision it gives that chance back
(`exp_startFor`).

The end is one.  A start below one is refused, by one check or another, and every other start is
taken (`make_fitted`): the fitted step is then in the range of its schedule.  It also has the right
size.  Either schedule leads down (`strictAnti_unfloored`), and after the given number of decisions
it is at one (`unfloored_self`), so that is when the temperature meets its floor
(`fit_hits_targets`).
-/
import Mathlib
import LargeNeighbourhood.Proofs.Acceptance.Decay

namespace LargeNeighbourhood

open Act

namespace SimulatedAnnealing

variable {initial worse probability start : ℝ} {n k : Nat}

/-! ## 1. The start -/

/-- **The fitted start gives the chance it was fitted to.** -/
theorem exp_startFor (hprobability : 0 < probability) (h : startFor initial worse probability ≠ 0) :
    Elementary.exp ((initial - initial * (1 + worse)) / startFor initial worse probability)
      = probability := by
  have hquotient : startFor initial worse probability = -worse * initial / Real.log probability :=
    rfl
  rw [hquotient, div_ne_zero_iff] at h
  have hexponent : (initial - initial * (1 + worse)) / startFor initial worse probability
      = Real.log probability := by
    rw [hquotient, show initial - initial * (1 + worse) = -worse * initial by ring,
      div_div_cancel₀ h.1]
  rw [hexponent]
  exact Real.exp_log hprobability

/-! ## 2. The step -/

/-- From a start of at least one the fitted step is in the range of its schedule. -/
theorem admits_stepFor (hstart : 1 ≤ start) (n : Nat) (method : Schedule) :
    method.Admits (stepFor start n method) := by
  have hinv : 0 < 1 / start ∧ 1 / start ≤ 1 :=
    ⟨one_div_pos.2 (zero_lt_one.trans_le hstart),
      (div_le_one (zero_lt_one.trans_le hstart)).2 hstart⟩
  have hroot : (0 : ℝ) ≤ 1 / (n : ℝ) := one_div_nonneg.2 n.cast_nonneg
  cases method with
  | linear => exact ⟨div_nonneg (sub_nonneg.2 hstart) n.cast_nonneg, nofun⟩
  | exponential =>
    have hpos : 0 < (1 / start) ^ (1 / (n : ℝ)) := Real.rpow_pos_of_pos hinv.1 _
    exact ⟨hpos.le, fun _ => ⟨hpos, Real.rpow_le_one hinv.1.le hinv.2 hroot⟩⟩

/-- The fitted criterion, as it begins. -/
noncomputable def fitted (start : ℝ) (n : Nat) (method : Schedule) (verbose : Bool) :
    SimulatedAnnealing ℝ where
  start := start
  finish := 1
  step := stepFor start n method
  method := method
  verbose := verbose
  temperature := start
  probability := 0

/-- A start of at least one is taken with its fitted step. -/
theorem make_fitted (hstart : 1 ≤ start) (n : Nat) (method : Schedule) (verbose : Bool) :
    make start 1 (stepFor start n method) method verbose = .ok (fitted start n method verbose) := by
  have hadmits := admits_stepFor hstart n method
  simp only [make, Checks.guard_ok_iff, Checks.pure_ok_iff, not_or, not_le, not_lt]
  refine ⟨⟨zero_lt_one.trans_le hstart, zero_lt_one, hadmits.nonneg⟩, hstart, ?_, rfl⟩
  cases method with
  | linear => simp [Schedule.refusesStep]
  | exponential =>
    have hshrinks := hadmits.shrinks rfl
    simp [Schedule.refusesStep, hshrinks.1, hshrinks.2]

/-- A start below one is refused, whatever the step. -/
theorem make_of_lt_one (hstart : start < 1) (step : ℝ) (method : Schedule) (verbose : Bool) :
    ∃ f : Fault ℝ, make start 1 step method verbose = .error f ∧ f.kind = .invalidArgument := by
  unfold make
  by_cases hpositive : start ≤ 0 ∨ (1 : ℝ) ≤ 0 ∨ step < 0
  · rw [if_pos hpositive]
    exact ⟨_, rfl, rfl⟩
  · rw [if_neg hpositive]
    exact ⟨_, if_pos hstart, rfl⟩

/-! ## 3. How far the steps lead -/

/-- What decays in fitted annealing. -/
noncomputable def fittedDecay (start : ℝ) (n : Nat) (method : Schedule) : Decay ℝ where
  start := start
  finish := 1
  step := stepFor start n method
  method := method
  live := start
  rule := fun t x => decide (x.fraction ≤ Elementary.exp ((x.current - x.candidate) / t))

/-- The steps of an exponential schedule multiply to the whole way in the given number. -/
theorem pow_stepFor (hstart : 0 ≤ start) (hn : n ≠ 0) :
    stepFor start n .exponential ^ n = 1 / start := by
  show ((1 / start) ^ (1 / (n : ℝ)) : ℝ) ^ n = 1 / start
  rw [one_div (n : ℝ)]
  exact Real.rpow_inv_natCast_pow (one_div_nonneg.2 hstart) hn

theorem unfloored_self (hstart : 0 < start) (hn : n ≠ 0) (method : Schedule) :
    (fittedDecay start n method).unfloored n = 1 := by
  cases method with
  | linear =>
    show start - n * ((start - 1) / n) = 1
    rw [mul_div_cancel₀ _ (Nat.cast_ne_zero.2 hn)]
    ring
  | exponential =>
    show start * stepFor start n .exponential ^ n = 1
    rw [pow_stepFor hstart.le hn, mul_one_div_cancel hstart.ne']

/-- From a start above one every fitted step leads strictly down. -/
theorem strictAnti_unfloored (hstart : 1 < start) (hn : n ≠ 0) (method : Schedule) :
    StrictAnti (fittedDecay start n method).unfloored := by
  have hpos : 0 < start := zero_lt_one.trans hstart
  refine strictAnti_nat_of_succ_lt fun k => ?_
  cases method with
  | linear =>
    have hstep : 0 < (start - 1) / (n : ℝ) :=
      div_pos (sub_pos.2 hstart) (Nat.cast_pos.2 (Nat.pos_of_ne_zero hn))
    rw [Decay.unfloored_succ]
    exact sub_lt_self _ hstep
  | exponential =>
    have hadmits := (admits_stepFor hstart.le n .exponential).shrinks rfl
    have hstep : stepFor start n .exponential < 1 := by
      rw [← pow_lt_one_iff_of_nonneg hadmits.1.le hn, pow_stepFor hpos.le hn]
      exact (div_lt_one hpos).2 hstart
    have hvalue : 0 < (fittedDecay start n .exponential).unfloored k :=
      mul_pos hpos (pow_pos hadmits.1 k)
    rw [Decay.unfloored_succ]
    exact mul_lt_of_lt_one_right hvalue hstep

theorem lawful_fittedDecay (hstart : 1 ≤ start) (n : Nat) (method : Schedule) :
    (fittedDecay start n method).Lawful :=
  ⟨zero_le_one, hstart, admits_stepFor hstart n method⟩

/-- **Before the given number of decisions the temperature is above one.** -/
theorem one_lt_valueAfter (hstart : 1 < start) (hk : k < n) (method : Schedule) :
    1 < (fittedDecay start n method).valueAfter k := by
  have hn : n ≠ 0 := Nat.ne_zero_of_lt hk
  have hlt := strictAnti_unfloored hstart hn method hk
  rw [unfloored_self (zero_lt_one.trans hstart) hn method] at hlt
  exact lt_max_of_lt_right hlt

/-- **From then on it is one.** -/
theorem valueAfter_eq_one (hstart : 1 ≤ start) (hn : n ≠ 0) (hk : n ≤ k) (method : Schedule) :
    (fittedDecay start n method).valueAfter k = 1 := by
  refine Decay.valueAfter_eq_finish (lawful_fittedDecay hstart n method) ?_ hk
  rw [Decay.valueAfter, unfloored_self (zero_lt_one.trans_le hstart) hn method]
  exact max_self 1

/-! ## 4. The fitted criterion -/

/-- Arguments in their ranges leave it to the plain constructor to refuse. -/
theorem result_fit {σ : Type} {iterations : Int} (hworse : 0 ≤ worse ∧ worse ≤ 1)
    (hprobability : 0 < probability ∧ probability < 1) (hiterations : 1 ≤ iterations)
    (initial : ℝ) (method : Schedule) (verbose : Bool) (w : Setting ℝ σ) :
    ∃ said, result (fit initial worse probability iterations method verbose) w
      = (make (startFor initial worse probability) 1
          (stepFor (startFor initial worse probability) iterations.toNat method) method verbose,
        w.saying said) := by
  unfold fit
  rw [if_neg (by rw [Scalar.within_iff.2 hworse]; exact Bool.false_ne_true),
    if_neg (not_not_intro hprobability), if_neg (by omega)]
  simp only [result_bind, result_sayIf, result_ofExcept]
  exact ⟨_, rfl⟩

/-- The temperature of fitted annealing after some decisions. -/
theorem temperature_after (hstart : 1 ≤ start) (n : Nat) (method : Schedule) (verbose : Bool)
    (xs : List (Occasion ℝ)) :
    ∃ s, (Criterion.simulatedAnnealing (fitted start n method verbose)).after xs
        = .simulatedAnnealing s ∧
      s.temperature = (fittedDecay start n method).valueAfter xs.length := by
  obtain ⟨s, hs⟩ := Criterion.exists_after_simulatedAnnealing (fitted start n method verbose) xs
  have hdecay := Criterion.decay?_after (lawful_fittedDecay hstart n method)
    (c := .simulatedAnnealing (fitted start n method verbose)) rfl rfl xs
  rw [hs] at hdecay
  exact ⟨s, hs, congrArg Decay.live (Option.some.inj hdecay)⟩

end SimulatedAnnealing

open SimulatedAnnealing in
/-- **Fitted annealing hits its targets.**  The constructor refuses its arguments exactly where
the start would lie below one.  Otherwise the criterion starts there and ends at one; it takes a
first candidate that is worse by the given fraction with the given probability; and its
temperature comes to one with the last of the given number of decisions. -/
theorem fit_hits_targets {σ : Type} {worse probability : ℝ} {iterations : Int}
    (hworse : 0 ≤ worse ∧ worse ≤ 1) (hprobability : 0 < probability ∧ probability < 1)
    (hiterations : 1 ≤ iterations) (initial : ℝ) (method : Schedule) (verbose : Bool)
    (w : Setting ℝ σ) :
    ((∃ f v, result (fit initial worse probability iterations method verbose) w = (.error f, v) ∧
        f.kind = .invalidArgument) ↔ -worse * initial / Real.log probability < 1) ∧
      (1 ≤ -worse * initial / Real.log probability →
        ∃ s v, result (fit initial worse probability iterations method verbose) w = (.ok s, v) ∧
          s.start = -worse * initial / Real.log probability ∧ s.finish = 1 ∧
          (∀ x : Occasion ℝ, x.current = initial → x.candidate = initial * (1 + worse) →
            (Criterion.simulatedAnnealing s).answer x = .ok (decide (x.fraction ≤ probability)) ∧
              ∃ s', (Criterion.simulatedAnnealing s).step x = .simulatedAnnealing s' ∧
                s'.probability = probability) ∧
          ∀ xs : List (Occasion ℝ), ∃ s',
            (Criterion.simulatedAnnealing s).after xs = .simulatedAnnealing s' ∧
              (1 < s.start → (xs.length : Int) < iterations → 1 < s'.temperature) ∧
              (iterations ≤ (xs.length : Int) → s'.temperature = 1)) := by
  obtain ⟨said, hfit⟩ := result_fit hworse hprobability hiterations initial method verbose w
  have hn : iterations.toNat ≠ 0 := by omega
  rw [hfit]
  show (_ ↔ startFor initial worse probability < 1) ∧ (1 ≤ startFor initial worse probability → _)
  have haccepted : 1 ≤ startFor initial worse probability →
      make (startFor initial worse probability) 1
          (stepFor (startFor initial worse probability) iterations.toNat method) method verbose
        = .ok (fitted (startFor initial worse probability) iterations.toNat method verbose) :=
    fun hle => make_fitted hle _ _ _
  generalize hstart : startFor initial worse probability = start at haccepted ⊢
  refine ⟨⟨?_, fun hlt => ?_⟩, fun hle => ?_⟩
  · rintro ⟨f, v, hf, -⟩
    refine lt_of_not_ge fun hle => ?_
    rw [haccepted hle] at hf
    exact absurd hf (by simp)
  · obtain ⟨f, hf, hkind⟩ := make_of_lt_one hlt _ method verbose
    exact ⟨f, _, Prod.ext hf rfl, hkind⟩
  · refine ⟨_, _, Prod.ext (haccepted hle) rfl, hstart.symm, rfl, fun x hcurrent hcandidate => ?_,
      fun xs => ?_⟩
    · have hchance : Elementary.exp ((x.current - x.candidate) / start) = probability := by
        rw [hcurrent, hcandidate, ← hstart]
        refine exp_startFor hprobability.1 ?_
        rw [hstart]
        exact (zero_lt_one.trans_le hle).ne'
      refine ⟨?_, _, Criterion.step_simulatedAnnealing _, ?_⟩
      · rw [Criterion.answer_simulatedAnnealing]
        exact congrArg (fun p => Except.ok (decide (x.fraction ≤ p))) hchance
      · show Scalar.lower (Elementary.exp ((x.current - x.candidate) / start)) 1 = probability
        rw [hchance, Scalar.lower_eq_min]
        exact min_eq_left hprobability.2.le
    · obtain ⟨s', hs', htemperature⟩ := temperature_after hle iterations.toNat method verbose xs
      refine ⟨s', hs', fun hlt hlength => ?_, fun hlength => ?_⟩
      · rw [htemperature]
        exact one_lt_valueAfter hlt (by omega) method
      · rw [htemperature]
        exact valueAfter_eq_one hle hn (by omega) method

open SimulatedAnnealing in
/-- For a first objective of four, a candidate that is half as much again, and the chance `exp (-1)`
the fitted start is two; four exponential steps lead from there to one, and three do not. -/
theorem fit_hits_targets_four :
    ∃ s v, result (fit 4 (1 / 2) (Real.exp (-1)) 4 .exponential false)
        (⟨(), Generator.standard, #[]⟩ : Setting ℝ Unit) = (.ok s, v) ∧
      s.start = 2 ∧ s.finish = 1 ∧
      (∀ x : Occasion ℝ, x.current = 4 → x.candidate = 6 →
        (Criterion.simulatedAnnealing s).answer x = .ok (decide (x.fraction ≤ Real.exp (-1)))) ∧
      ∀ xs : List (Occasion ℝ), ∃ s',
        (Criterion.simulatedAnnealing s).after xs = .simulatedAnnealing s' ∧
          (xs.length = 3 → 1 < s'.temperature) ∧ (xs.length = 4 → s'.temperature = 1) := by
  have hstart : -(1 / 2) * 4 / Real.log (Real.exp (-1)) = 2 := by
    rw [Real.log_exp]
    norm_num
  have hchance : (0 : ℝ) < Real.exp (-1) ∧ Real.exp (-1) < 1 :=
    ⟨Real.exp_pos _, Real.exp_lt_one_iff.2 (by norm_num)⟩
  have hworse : (0 : ℝ) ≤ 1 / 2 ∧ (1 / 2 : ℝ) ≤ 1 := by norm_num
  have hiterations : (1 : Int) ≤ 4 := by norm_num
  obtain ⟨-, h⟩ := fit_hits_targets hworse hchance hiterations 4 .exponential false
    (⟨(), Generator.standard, #[]⟩ : Setting ℝ Unit)
  obtain ⟨s, v, hfit, hs, hfinish, hfirst, hafter⟩ := h (by rw [hstart]; norm_num)
  rw [hstart] at hs
  refine ⟨s, v, hfit, hs, hfinish, fun x hcurrent hcandidate => ?_, fun xs => ?_⟩
  · exact (hfirst x hcurrent (by rw [hcandidate]; norm_num)).1
  · obtain ⟨s', hs', habove, hone⟩ := hafter xs
    refine ⟨s', hs', fun hlength => ?_, fun hlength => ?_⟩
    · exact habove (by rw [hs]; norm_num) (by omega)
    · exact hone (by omega)

end LargeNeighbourhood
