/-
# What a schedule comes to

Four kinds of criteria have a parameter that decays: the temperature of annealing, the threshold of
record-to-record travel and of threshold acceptance, the probability of random acceptance.
`Criterion.decay?` reads off such a criterion what its schedule needs, where the parameter stands
now, and how a decision uses it.

A schedule puts its floor under every single step.  `Decay.valueAfter` puts it once under the sum
or the product of all steps.  The two agree because a floor that is not negative has no way up
through a step: a linear step subtracts what is not negative, and an exponential one multiplies by
at most one (`next_valueAfter`).  So the parameter after any decisions is known from their number
(`decay?_after`), and what is said of it afterwards is said of `valueAfter` alone
(`decay_after_decisions`).
-/
import Mathlib
import LargeNeighbourhood.Proofs.Acceptance.Decisions
import LargeNeighbourhood.Proofs.Acceptance.NewBest

namespace LargeNeighbourhood

/-! ## 1. What decays -/

/-- A parameter that decays, with the rule by which a decision uses it. -/
structure Decay (K : Type) where
  start : K
  finish : K
  step : K
  method : Schedule
  /-- Where the parameter stands. -/
  live : K
  rule : K → Occasion K → Bool

/-- The parameter one step later. -/
def Decay.next {K : Type} [Scalar K] (d : Decay K) : Decay K :=
  { d with live := d.method.next d.finish d.live d.step }

namespace Criterion

variable {K : Type} [Scalar K] [Elementary K] {c : Criterion K} {d : Decay K} {x : Occasion K}

/-- The decaying parameter of a criterion that has one. -/
def decay? : Criterion K → Option (Decay K)
  | simulatedAnnealing s =>
    some ⟨s.start, s.finish, s.step, s.method, s.temperature, fun t x =>
      decide (x.fraction ≤ Elementary.exp ((x.current - x.candidate) / t))⟩
  | recordToRecord r =>
    some ⟨r.start, r.finish, r.step, r.method, r.threshold, fun t x =>
      decide (x.candidate - x.best ≤ t)⟩
  | thresholdAcceptance r =>
    some ⟨r.start, r.finish, r.step, r.method, r.threshold, fun t x =>
      decide (x.candidate - x.current ≤ t)⟩
  | randomAccept r =>
    some ⟨r.start, r.finish, r.step, r.method, r.probability, fun t x =>
      decide (x.candidate < x.current) || decide (x.fraction < t)⟩
  | _ => none

/-- **A decision uses the parameter as it stands**, and then moves it by one step. -/
theorem answer_step_of_decay (h : c.decay? = some d) :
    c.answer x = .ok (d.rule d.live x) ∧ (c.step x).decay? = some d.next := by
  cases c with
  | simulatedAnnealing s =>
    cases h
    rw [answer_simulatedAnnealing, step_simulatedAnnealing]
    exact ⟨rfl, rfl⟩
  | recordToRecord r =>
    cases h
    exact ⟨rfl, rfl⟩
  | thresholdAcceptance r =>
    cases h
    exact ⟨rfl, rfl⟩
  | randomAccept r =>
    cases h
    rw [answer_randomAccept, step_randomAccept]
    exact ⟨rfl, rfl⟩
  | _ => cases h

end Criterion

variable {K : Type} [Field K] [LinearOrder K] {d : Decay K} {j k : Nat}

/-! ## 2. Many steps at once -/

namespace Decay

/-- Where the parameter would stand after some steps from its start if there were no floor. -/
def unfloored (d : Decay K) (k : Nat) : K :=
  match d.method with
  | .linear => d.start - k * d.step
  | .exponential => d.start * d.step ^ k

/-- Where the parameter stands after some steps from its start. -/
def valueAfter (d : Decay K) (k : Nat) : K := max d.finish (d.unfloored k)

/-- A decay whose floor is not negative, and whose steps its schedule admits. -/
structure Lawful (d : Decay K) : Prop where
  finish_nonneg : 0 ≤ d.finish
  finish_le : d.finish ≤ d.start
  admits : d.method.Admits d.step

theorem unfloored_zero (d : Decay K) : d.unfloored 0 = d.start := by
  cases hm : d.method <;> simp [unfloored, hm]

theorem unfloored_succ (d : Decay K) (k : Nat) :
    d.unfloored (k + 1) = d.method.advance (d.unfloored k) d.step := by
  cases hm : d.method with
  | linear =>
    simp only [unfloored, hm, Schedule.advance, Nat.cast_succ]
    ring
  | exponential =>
    simp only [unfloored, hm, Schedule.advance, pow_succ]
    ring

theorem finish_le_valueAfter (d : Decay K) (k : Nat) : d.finish ≤ d.valueAfter k :=
  le_max_left _ _

theorem valueAfter_zero (h : d.Lawful) : d.valueAfter 0 = d.start := by
  rw [valueAfter, unfloored_zero, max_eq_right h.finish_le]

variable [IsStrictOrderedRing K]

/-- A floor under the value before a step is no more than one under the value after it. -/
theorem max_advance (h : d.Lawful) (y : K) :
    max d.finish (d.method.advance (max d.finish y) d.step)
      = max d.finish (d.method.advance y d.step) := by
  cases hm : d.method with
  | linear =>
    have hfloor : d.finish - d.step ≤ d.finish := sub_le_self _ h.admits.nonneg
    simp only [Schedule.advance]
    rw [← max_sub_sub_right, ← max_assoc, max_eq_left hfloor]
  | exponential =>
    have hfloor : d.finish * d.step ≤ d.finish :=
      mul_le_of_le_one_right h.finish_nonneg (h.admits.shrinks hm).2
    simp only [Schedule.advance]
    rw [max_mul_of_nonneg _ _ h.admits.nonneg, ← max_assoc, max_eq_left hfloor]

/-- **The floor under every step is the floor under all of them.** -/
theorem next_valueAfter (h : d.Lawful) (k : Nat) :
    d.method.next d.finish (d.valueAfter k) d.step = d.valueAfter (k + 1) := by
  rw [Schedule.next, Scalar.upper_eq_max, valueAfter, max_advance h, valueAfter, unfloored_succ]

theorem valueAfter_succ_le (h : d.Lawful) (k : Nat) : d.valueAfter (k + 1) ≤ d.valueAfter k := by
  rw [← next_valueAfter h]
  exact Schedule.next_le h.finish_nonneg (d.finish_le_valueAfter k) (d.finish_le_valueAfter k)
    (le_refl _) h.admits

/-- A lawful decay leads down. -/
theorem antitone_valueAfter (h : d.Lawful) : Antitone d.valueAfter :=
  antitone_nat_of_succ_le (valueAfter_succ_le h)

theorem valueAfter_le_start (h : d.Lawful) (k : Nat) : d.valueAfter k ≤ d.start := by
  rw [← valueAfter_zero h]
  exact antitone_valueAfter h (Nat.zero_le k)

/-- At its floor it stays. -/
theorem valueAfter_eq_finish (h : d.Lawful) (hk : d.valueAfter k = d.finish) (hjk : k ≤ j) :
    d.valueAfter j = d.finish :=
  le_antisymm ((antitone_valueAfter h hjk).trans hk.le) (d.finish_le_valueAfter j)

end Decay

/-! ## 3. New criteria -/

/-- What the constructor makes of its arguments. -/
theorem SimulatedAnnealing.eq_of_make {K : Type} [Scalar K] {start finish step : K}
    {method : Schedule} {verbose : Bool} {s : SimulatedAnnealing K}
    (h : make start finish step method verbose = .ok s) :
    s = { start, finish, step, method, verbose, temperature := start, probability := 0 } := by
  simp only [make, Checks.guard_ok_iff, Checks.pure_ok_iff] at h
  exact h.2.2.2.symm

theorem RecordToRecord.eq_of_make {K : Type} [Scalar K] {start finish step : K}
    {method : Schedule} {r : RecordToRecord K} (h : make start finish step method = .ok r) :
    r = { start, finish, step, method, threshold := start } := by
  simp only [make, Checks.guard_ok_iff, Checks.pure_ok_iff] at h
  exact h.2.2.2.symm

theorem RandomAccept.eq_of_make {K : Type} [Scalar K] {start finish step : K}
    {method : Schedule} {r : RandomAccept K} (h : make start finish step method = .ok r) :
    r = { start, finish, step, method, probability := start } := by
  simp only [make, Checks.guard_ok_iff, Checks.pure_ok_iff] at h
  exact h.2.2.2.symm

namespace Criterion

variable [Elementary K] {c : Criterion K} {xs : List (Occasion K)}

/-- The decaying parameter of a criterion in its ranges is lawful. -/
theorem lawful_of_inRange (h : c.InRange) (hd : c.decay? = some d) : d.Lawful := by
  cases c with
  | simulatedAnnealing s =>
    cases hd
    exact ⟨h.finish_pos.le, h.finish_le, h.admits⟩
  | recordToRecord r =>
    cases hd
    exact ⟨h.finish_nonneg, h.finish_le, h.admits⟩
  | thresholdAcceptance r =>
    cases hd
    exact ⟨h.finish_nonneg, h.finish_le, h.admits⟩
  | randomAccept r =>
    cases hd
    exact ⟨h.finish_nonneg, h.finish_le, h.admits⟩
  | _ => cases hd

/-- A new criterion has its parameter at the start. -/
theorem live_of_fresh (h : c.Fresh) (hd : c.decay? = some d) : d.live = d.start := by
  cases h with
  | simulatedAnnealing made =>
    cases SimulatedAnnealing.eq_of_make made
    cases hd
    rfl
  | annealingFitted made =>
    obtain ⟨start, step, hmake⟩ := SimulatedAnnealing.make_of_fit made
    cases SimulatedAnnealing.eq_of_make hmake
    cases hd
    rfl
  | recordToRecord made =>
    cases RecordToRecord.eq_of_make made
    cases hd
    rfl
  | thresholdAcceptance made =>
    cases RecordToRecord.eq_of_make made
    cases hd
    rfl
  | randomAccept made =>
    cases RandomAccept.eq_of_make made
    cases hd
    rfl
  | _ => cases hd

/-- New annealing has recorded no chance. -/
theorem probability_of_fresh {s : SimulatedAnnealing K} (h : (simulatedAnnealing s).Fresh) :
    s.probability = 0 := by
  cases h with
  | simulatedAnnealing made => exact congrArg _ (SimulatedAnnealing.eq_of_make made)
  | annealingFitted made =>
    obtain ⟨start, step, hmake⟩ := SimulatedAnnealing.make_of_fit made
    exact congrArg _ (SimulatedAnnealing.eq_of_make hmake)

/-! ## 4. Decisions -/

variable [IsStrictOrderedRing K]

/-- **After some decisions the parameter is known from their number.** -/
theorem decay?_after (h : d.Lawful) (hd : c.decay? = some d) (hlive : d.live = d.start)
    (xs : List (Occasion K)) :
    (c.after xs).decay? = some { d with live := d.valueAfter xs.length } := by
  induction xs using List.reverseRecOn with
  | nil =>
    have hstart : d.valueAfter 0 = d.live := (Decay.valueAfter_zero h).trans hlive.symm
    rw [after_nil, hd, List.length_nil, hstart]
  | append_singleton xs x ih =>
    rw [after_concat, (answer_step_of_decay ih).2, List.length_append, List.length_singleton,
      ← Decay.next_valueAfter h]
    rfl

/-- The chance that annealing keeps of its last decision is a probability. -/
theorem probability_after {s s' : SimulatedAnnealing K} (hexp : ∀ y : K, 0 ≤ Elementary.exp y)
    (hs : 0 ≤ s.probability ∧ s.probability ≤ 1)
    (h : (simulatedAnnealing s).after xs = simulatedAnnealing s') :
    0 ≤ s'.probability ∧ s'.probability ≤ 1 := by
  induction xs generalizing s with
  | nil =>
    cases h
    exact hs
  | cons x xs ih =>
    rw [after, List.foldl_cons, step_simulatedAnnealing] at h
    refine ih ?_ h
    rw [SimulatedAnnealing.settle, Scalar.lower_eq_min]
    exact ⟨le_min (hexp _) zero_le_one, min_le_right _ _⟩

end Criterion

/-- **The decaying parameter of a new criterion has a closed form.**  After any decisions it is
the floor under all their steps together, the next decision uses that value, and so it stays
between its end and its start, leads down, and stays at the end.  A temperature is positive, and
a chance of random acceptance is a probability. -/
theorem decay_after_decisions [IsStrictOrderedRing K] [Elementary K] {c : Criterion K}
    (hc : c.Fresh) (hd : c.decay? = some d) :
    (∀ xs : List (Occasion K),
        (c.after xs).decay? = some { d with live := d.valueAfter xs.length } ∧
          ∀ x, (c.after xs).answer x = .ok (d.rule (d.valueAfter xs.length) x)) ∧
      (∀ k, d.finish ≤ d.valueAfter k ∧ d.valueAfter k ≤ d.start) ∧
      Antitone d.valueAfter ∧
      (∀ j k, k ≤ j → d.valueAfter k = d.finish → d.valueAfter j = d.finish) ∧
      (∀ s, c = .simulatedAnnealing s →
        (∀ k, 0 < d.valueAfter k) ∧
          ((∀ y : K, 0 ≤ Elementary.exp y) → ∀ xs s',
            c.after xs = .simulatedAnnealing s' → 0 ≤ s'.probability ∧ s'.probability ≤ 1)) ∧
      ∀ r, c = .randomAccept r → ∀ k, 0 ≤ d.valueAfter k ∧ d.valueAfter k ≤ 1 := by
  have hrange := Criterion.inRange_of_fresh hc
  have hlawful := Criterion.lawful_of_inRange hrange hd
  have hafter := Criterion.decay?_after hlawful hd (Criterion.live_of_fresh hc hd)
  have hbounds : ∀ k, d.finish ≤ d.valueAfter k ∧ d.valueAfter k ≤ d.start := fun k =>
    ⟨d.finish_le_valueAfter k, Decay.valueAfter_le_start hlawful k⟩
  refine ⟨fun xs => ⟨hafter xs, fun x => (Criterion.answer_step_of_decay (hafter xs)).1⟩, hbounds,
    Decay.antitone_valueAfter hlawful,
    fun j k hjk hk => Decay.valueAfter_eq_finish hlawful hk hjk, ?_, ?_⟩
  · rintro s rfl
    cases hd
    refine ⟨fun k => hrange.finish_pos.trans_le (hbounds k).1, fun hexp xs s' h => ?_⟩
    refine Criterion.probability_after hexp ?_ h
    rw [Criterion.probability_of_fresh hc]
    exact ⟨le_refl _, zero_le_one⟩
  · rintro r rfl
    cases hd
    exact fun k => ⟨hrange.finish_nonneg.trans (hbounds k).1, (hbounds k).2.trans hrange.start_le⟩

open Countdown in
/-- Annealing from two down to one is at two, at one and still at one. -/
theorem decay_after_decisions_annealing :
    ∃ d, (Criterion.simulatedAnnealing annealing).decay? = some d ∧
      d.valueAfter 0 = 2 ∧ d.valueAfter 1 = 1 ∧ d.valueAfter 2 = 1 ∧
      (∀ xs : List (Occasion ℝ),
        ((Criterion.simulatedAnnealing annealing).after xs).decay?
            = some { d with live := d.valueAfter xs.length } ∧
          ∀ x, ((Criterion.simulatedAnnealing annealing).after xs).answer x
            = .ok (d.rule (d.valueAfter xs.length) x)) ∧
      Antitone d.valueAfter ∧ ∀ k, 0 < d.valueAfter k := by
  obtain ⟨hafter, -, hanti, -, hpos, -⟩ := decay_after_decisions fresh_annealing rfl
  refine ⟨_, rfl, ?_, ?_, ?_, hafter, hanti, (hpos annealing rfl).1⟩
  · norm_num [Decay.valueAfter, Decay.unfloored, annealing]
  · norm_num [Decay.valueAfter, Decay.unfloored, annealing]
  · norm_num [Decay.valueAfter, Decay.unfloored, annealing]

end LargeNeighbourhood
