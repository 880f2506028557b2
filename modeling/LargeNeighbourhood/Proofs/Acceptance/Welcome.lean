/-
# Criteria that take every new best solution

A candidate that is better than the best solution so far becomes best and current whatever the
criterion says of it.  The criteria of the library never say no to one.  Each has its own reason,
and for some it lies in what they remember of the run:

* late acceptance remembers old references, and none of them is below the best objective;
* the moving average remembers old candidates, and none of them is below the best objective;
* the great deluge keeps its level above the best objective, once that was positive;
* annealing keeps its temperature, and the threshold criteria their threshold, from going below
  an end that is not negative.

`Criterion.Welcoming best` says this of the state of a criterion.  A new criterion is welcoming
(`welcoming_of_fresh`), and one decision keeps it so, for the best objective after the decision
(`accept_welcoming`).
-/
import Mathlib
import LargeNeighbourhood.Acceptance.Criterion
import LargeNeighbourhood.Proofs.Act
import LargeNeighbourhood.Proofs.Checks
import LargeNeighbourhood.Proofs.Random.Draws

namespace LargeNeighbourhood

open Act

variable {K : Type}

/-! ## 1. Memories -/

/-- What a window of bounded length holds after an entry came in was there before, or is the
entry. -/
theorem mem_of_mem_window {n : Nat} {history : List K} {x y : K}
    (h : y ∈ if n < (history ++ [x]).length then (history ++ [x]).tail else history ++ [x]) :
    y ∈ history ∨ y = x := by
  have hmem : y ∈ history ++ [x] := by
    split at h
    · exact List.mem_of_mem_tail h
    · exact h
  rcases List.mem_append.1 hmem with hmem | hmem
  · exact Or.inl hmem
  · exact Or.inr (List.mem_singleton.1 hmem)

namespace LateAcceptance

variable [LinearOrder K] {c : LateAcceptance K} {best current candidate : K}

omit [LinearOrder K] in
theorem history_of_make {lookback : Int} {greedy betterHistory : Bool}
    (h : (make lookback greedy betterHistory : Except (Fault K) _) = .ok c) : c.history = [] := by
  unfold make at h
  split at h
  · exact absurd h (by simp)
  · cases h
    rfl

theorem accepts_of_lt (h : ∀ x ∈ c.history, best ≤ x) (hc : best ≤ current)
    (hlt : candidate < best) : (c.accept current candidate).1 = true := by
  unfold accept
  split
  · exact decide_eq_true (lt_of_lt_of_le hlt hc)
  · rename_i oldest rest heq
    have hold : best ≤ oldest := h oldest (by rw [heq]; exact List.mem_cons_self ..)
    rw [Bool.or_eq_true]
    exact Or.inl (decide_eq_true (lt_of_lt_of_le hlt hold))

theorem le_history_accept (h : ∀ x ∈ c.history, best ≤ x) (hc : best ≤ current) :
    ∀ x ∈ (c.accept current candidate).2.history, best ≤ x := by
  unfold accept
  split
  · intro x hx
    rcases mem_of_mem_window hx with hx | rfl
    · exact h x hx
    · exact hc
  · rename_i oldest rest heq
    have hold : best ≤ oldest := h oldest (by rw [heq]; exact List.mem_cons_self ..)
    intro x hx
    rcases mem_of_mem_window hx with hx | rfl
    · exact h x hx
    · split
      · rw [Scalar.lower_eq_min]
        exact le_min hc hold
      · exact hc

end LateAcceptance

namespace MovingAverage

variable [LinearOrder K] {c : MovingAverage K} {best candidate : K}

/-- The window stays above the best objective, which the new candidate may lower. -/
theorem le_history_record (candidate : K) (h : ∀ x ∈ c.history, best ≤ x) :
    ∀ x ∈ (c.record candidate).history, min best candidate ≤ x := by
  intro x hx
  rcases mem_of_mem_window hx with hx | rfl
  · exact le_trans (min_le_left _ _) (h x hx)
  · exact min_le_right _ _

variable [Field K]

theorem make_ok {eta : K} {gamma : Int} (h : make eta gamma = .ok c) :
    0 ≤ c.eta ∧ c.history = [] := by
  simp only [make, Checks.guard_ok_iff, Checks.pure_ok_iff] at h
  obtain ⟨heta, -, rfl⟩ := h
  rw [Bool.not_eq_true, Bool.not_eq_false', Scalar.within_iff] at heta
  exact ⟨heta.1, rfl⟩

theorem accept_snd (c : MovingAverage K) (candidate : K) :
    (c.accept candidate).2 = c.record candidate := by
  unfold accept
  simp only
  split <;> rfl

variable [IsStrictOrderedRing K]

/-- A threshold is never below a bound of the window. -/
theorem le_threshold (heta : 0 ≤ c.eta) {a b : K} {rest : List K} (h : ∀ x ∈ a :: rest, b ≤ x) :
    b ≤ c.threshold a rest := by
  obtain ⟨ha, hrest⟩ := List.forall_mem_cons.1 h
  have hleast : b ≤ Scalar.least a rest := Scalar.le_least ha hrest
  have hgap : 0 ≤ c.eta * (Scalar.sum (a :: rest) / ((rest.length + 1 : Nat) : K)
      - Scalar.least a rest) :=
    mul_nonneg heta (sub_nonneg.2 (Scalar.least_le_mean a rest))
  exact le_trans hleast (le_add_of_nonneg_right hgap)

theorem accepts_of_lt (heta : 0 ≤ c.eta) (h : ∀ x ∈ c.history, best ≤ x)
    (hlt : candidate < best) : (c.accept candidate).1 = true := by
  have hrecord := le_history_record candidate h
  rw [min_eq_right hlt.le] at hrecord
  unfold accept
  simp only
  split
  · rfl
  · rename_i x rest heq
    rw [heq] at hrecord
    exact decide_eq_true (le_threshold heta hrecord)

end MovingAverage

/-! ## 2. Levels and thresholds -/

/-- Annealing compares the chance of a candidate with one drawn fraction.  It may say a line. -/
theorem SimulatedAnnealing.result_accept [Scalar K] [Elementary K] (current candidate : K)
    (w : Setting K (SimulatedAnnealing K)) :
    ∃ said, result (accept current candidate) w =
      (.ok (decide ((Draw.uniform w.rng).1
          ≤ Elementary.exp ((current - candidate) / w.own.temperature))),
        ⟨w.own.settle (Elementary.exp ((current - candidate) / w.own.temperature))
            (decide ((Draw.uniform w.rng).1
              ≤ Elementary.exp ((current - candidate) / w.own.temperature))),
          (Draw.uniform w.rng : K × Generator).2, w.lines ++ said⟩) := by
  unfold accept
  simp only [result_bind, result_own, result_draw, result_become, result_sayIf, result_pure]
  exact ⟨_, rfl⟩

section Thresholds

variable [Field K] [LinearOrder K]

/-- A step of a schedule does not go below the floor. -/
theorem Schedule.le_next (m : Schedule) (floor x step : K) : floor ≤ m.next floor x step := by
  unfold Schedule.next
  rw [Scalar.upper_eq_max]
  exact le_max_left _ _

theorem RecordToRecord.make_ok {c : RecordToRecord K} {start finish step : K} {method : Schedule}
    (h : make start finish step method = .ok c) : 0 ≤ c.finish ∧ 0 ≤ c.threshold := by
  simp only [make, Checks.guard_ok_iff, Checks.pure_ok_iff, not_or, not_lt] at h
  obtain ⟨⟨hstart, hfinish, -⟩, -, -, rfl⟩ := h
  exact ⟨hfinish, hstart⟩

/-- A negative gap is below any threshold. -/
theorem RecordToRecord.accepts_of_neg {c : RecordToRecord K} (h : 0 ≤ c.threshold) {gap : K}
    (hgap : gap < 0) : (c.accept gap).1 = true :=
  decide_eq_true (hgap.le.trans h)

/-- A candidate that is better than the current solution is taken without a draw. -/
theorem RandomAccept.accepts_of_lt {c : RandomAccept K} {current candidate : K}
    (h : candidate < current) (g : Generator) : (c.accept current candidate g).1.1 = true := by
  unfold accept
  rw [if_pos h]
  rfl

theorem NonLinearGreatDeluge.accepts_of_lt [Elementary K] {c : NonLinearGreatDeluge K}
    {best current candidate : K} {d : Bool × NonLinearGreatDeluge K}
    (hd : c.accept best current candidate = .ok d) (h : candidate < current) : d.1 = true := by
  unfold accept at hd
  obtain ⟨level, -, hd⟩ := Checks.bind_ok_iff.1 hd
  cases Checks.pure_ok_iff.1 hd
  rw [Bool.or_eq_true]
  exact Or.inr (decide_eq_true h)

end Thresholds

variable [Field K] [LinearOrder K] [IsStrictOrderedRing K]

namespace GreatDeluge

variable {c : GreatDeluge K} {best candidate : K}

omit [IsStrictOrderedRing K] in
theorem make_ok {alpha beta : K} (h : make alpha beta = .ok c) :
    1 < c.alpha ∧ 0 < c.beta ∧ c.beta < 1 ∧ c.level? = none := by
  unfold make at h
  split at h
  · exact absurd h (by simp)
  · rename_i hpar
    rw [not_or, not_le, Decidable.not_not] at hpar
    cases h
    exact ⟨hpar.1, hpar.2.1, hpar.2.2, rfl⟩

theorem accepts_of_lt (h : best < c.level best) (hlt : candidate < best) :
    (c.accept best candidate).1 = true :=
  decide_eq_true (sub_pos.2 (hlt.trans h))

/-- The level moves towards the candidate and does not reach it, so it stays above the best
objective. -/
theorem lt_level_accept (hpos : 0 < c.beta) (hone : c.beta < 1) (h : best < c.level best) (b : K) :
    min best candidate < (c.accept best candidate).2.level b := by
  show min best candidate
    < c.level best - c.beta * (c.level best - candidate)
  by_cases hd : candidate < c.level best
  · have hgap : 0 < (1 - c.beta) * (c.level best - candidate) :=
      mul_pos (sub_pos.2 hone) (sub_pos.2 hd)
    have hmin := min_le_right best candidate
    linarith
  · have hgap : c.beta * (c.level best - candidate) ≤ 0 :=
      mul_nonpos_of_nonneg_of_nonpos hpos.le (sub_nonpos.2 (not_lt.1 hd))
    have hmin := min_le_left best candidate
    linarith

end GreatDeluge

namespace SimulatedAnnealing

variable {c : SimulatedAnnealing K}

omit [IsStrictOrderedRing K] in
theorem make_ok {start finish step : K} {method : Schedule} {verbose : Bool}
    (h : make start finish step method verbose = .ok c) :
    0 < c.finish ∧ 0 < c.temperature ∧ c.accepted = 0 ∧ c.rejected = 0 := by
  simp only [make, Checks.guard_ok_iff, Checks.pure_ok_iff, not_or, not_le] at h
  obtain ⟨⟨hstart, hfinish, -⟩, -, -, rfl⟩ := h
  exact ⟨hfinish, hstart, rfl, rfl⟩

variable [Elementary K] {current candidate : K}

omit [IsStrictOrderedRing K] in
/-- What the fitted constructor makes, the plain one makes too. -/
theorem make_of_fit {σ : Type} {initial worse probability : K} {iterations : Int}
    {method : Schedule} {verbose : Bool} {w v : Setting K σ}
    (h : result (fit initial worse probability iterations method verbose) w = (.ok c, v)) :
    ∃ start step, make start 1 step method verbose = .ok c := by
  unfold fit at h
  simp only [guard_ok_iff] at h
  obtain ⟨-, -, -, h⟩ := h
  rw [result_bind, result_sayIf] at h
  simp only [result_ofExcept, Prod.mk.injEq] at h
  exact ⟨_, _, h.1⟩

/-- The probability with which a state takes a candidate. -/
def chance (c : SimulatedAnnealing K) (current candidate : K) : K :=
  Elementary.exp ((current - candidate) / c.temperature)

/-- A decision compares the chance with one drawn fraction, and counts its answer. -/
theorem accept_spec (current candidate : K) (w : Setting K (SimulatedAnnealing K)) :
    ∃ u, u < 1 ∧ (result (accept current candidate) w).1
        = .ok (decide (u ≤ w.own.chance current candidate)) ∧
      (result (accept current candidate) w).2.own
        = w.own.settle (w.own.chance current candidate)
          (decide (u ≤ w.own.chance current candidate)) := by
  obtain ⟨said, h⟩ := result_accept current candidate w
  rw [h]
  exact ⟨_, Draw.uniform_lt_one w.rng, rfl, rfl⟩

/-- A candidate that is better than the current solution has a chance of at least one. -/
theorem one_le_chance (hexp : ∀ x : K, 0 ≤ x → 1 ≤ Elementary.exp x)
    {c : SimulatedAnnealing K} (ht : 0 < c.temperature) (hlt : candidate < current) :
    1 ≤ c.chance current candidate :=
  hexp _ (div_nonneg (sub_nonneg.2 hlt.le) ht.le)

end SimulatedAnnealing

/-! ## 3. All criteria -/

namespace Criterion

/-- A criterion as a constructor makes it. -/
inductive Fresh [Elementary K] : Criterion K → Prop
  | hillClimbing : Fresh .hillClimbing
  | randomWalk : Fresh .randomWalk
  | lateAcceptance {lookback greedy betterHistory c}
      (made : (LateAcceptance.make lookback greedy betterHistory : Except (Fault K) _) = .ok c) :
      Fresh (.lateAcceptance c)
  | simulatedAnnealing {start finish step method verbose c}
      (made : SimulatedAnnealing.make start finish step method verbose = .ok c) :
      Fresh (.simulatedAnnealing c)
  | annealingFitted {σ initial worse probability iterations method verbose c}
      {w v : Setting K σ}
      (made : result (SimulatedAnnealing.fit initial worse probability iterations method verbose) w
        = (.ok c, v)) :
      Fresh (.simulatedAnnealing c)
  | recordToRecord {start finish step method c}
      (made : RecordToRecord.make start finish step method = .ok c) : Fresh (.recordToRecord c)
  | thresholdAcceptance {start finish step method c}
      (made : RecordToRecord.make start finish step method = .ok c) :
      Fresh (.thresholdAcceptance c)
  | randomAccept {start finish step method c}
      (made : RandomAccept.make start finish step method = .ok c) : Fresh (.randomAccept c)
  | greatDeluge {alpha beta c} (made : GreatDeluge.make alpha beta = .ok c) :
      Fresh (.greatDeluge c)
  | nonLinearGreatDeluge {alpha beta gamma delta c}
      (made : NonLinearGreatDeluge.make alpha beta gamma delta = .ok c) :
      Fresh (.nonLinearGreatDeluge c)
  | movingAverage {eta gamma c} (made : MovingAverage.make eta gamma = .ok c) :
      Fresh (.movingAverage c)

/-- What the state of a criterion has to be, so that the criterion takes every candidate better
than the best solution from here on. -/
def Welcoming (best : K) : Criterion K → Prop
  | lateAcceptance c => ∀ x ∈ c.history, best ≤ x
  | simulatedAnnealing c => 0 < c.finish ∧ 0 < c.temperature
  | recordToRecord c => 0 ≤ c.finish ∧ 0 ≤ c.threshold
  | thresholdAcceptance c => 0 ≤ c.finish ∧ 0 ≤ c.threshold
  | greatDeluge c => 0 < c.beta ∧ c.beta < 1 ∧ best < c.level best
  | movingAverage c => 0 ≤ c.eta ∧ ∀ x ∈ c.history, best ≤ x
  | _ => True

/-- **A new criterion is welcoming.**  A great deluge is if the best objective is positive, for
its first level is a multiple of that. -/
theorem welcoming_of_fresh [Elementary K] {c : Criterion K} (h : c.Fresh) {best : K}
    (hdeluge : ∀ d, c = .greatDeluge d → 0 < best) : c.Welcoming best := by
  cases h with
  | lateAcceptance made =>
    intro x hx
    rw [LateAcceptance.history_of_make made] at hx
    exact absurd hx (by simp)
  | simulatedAnnealing made =>
    obtain ⟨hfinish, htemp, -, -⟩ := SimulatedAnnealing.make_ok made
    exact ⟨hfinish, htemp⟩
  | annealingFitted made =>
    obtain ⟨start, step, hmake⟩ := SimulatedAnnealing.make_of_fit made
    obtain ⟨hfinish, htemp, -, -⟩ := SimulatedAnnealing.make_ok hmake
    exact ⟨hfinish, htemp⟩
  | recordToRecord made => exact RecordToRecord.make_ok made
  | thresholdAcceptance made => exact RecordToRecord.make_ok made
  | greatDeluge made =>
    obtain ⟨halpha, hpos, hone, hnone⟩ := GreatDeluge.make_ok made
    refine ⟨hpos, hone, ?_⟩
    rw [GreatDeluge.level, hnone, Option.getD_none]
    exact lt_mul_of_one_lt_left (hdeluge _ rfl) halpha
  | movingAverage made =>
    obtain ⟨heta, hnil⟩ := MovingAverage.make_ok made
    refine ⟨heta, ?_⟩
    intro x hx
    rw [hnil] at hx
    exact absurd hx (by simp)
  | _ => exact True.intro

variable [Elementary K]

omit [IsStrictOrderedRing K] in
/-- New annealing counted nothing yet. -/
theorem counters_of_fresh {c : SimulatedAnnealing K} (h : (simulatedAnnealing c).Fresh) :
    c.accepted = 0 ∧ c.rejected = 0 := by
  cases h with
  | simulatedAnnealing made => exact (SimulatedAnnealing.make_ok made).2.2
  | annealingFitted made =>
    obtain ⟨start, step, hmake⟩ := SimulatedAnnealing.make_of_fit made
    exact (SimulatedAnnealing.make_ok hmake).2.2

omit [Field K] [LinearOrder K] [IsStrictOrderedRing K] [Elementary K] in
@[simp] theorem result_settle {α : Type} (wrap : α → Criterion K) (decision : Bool × α)
    (w : Setting K (Criterion K)) :
    result (settle wrap decision) w = (.ok decision.1, { w with own := wrap decision.2 }) := rfl

/-- **A decision keeps a criterion welcoming**, and takes a candidate that is better than the best
solution. -/
theorem accept_welcoming (hexp : ∀ x : K, 0 ≤ x → 1 ≤ Elementary.exp x)
    {best current candidate : K} (hle : best ≤ current) {w v : Setting K (Criterion K)}
    (hw : w.own.Welcoming best) {a : Bool}
    (h : result (accept best current candidate) w = (.ok a, v)) :
    (candidate < best → a = true) ∧ v.own.Welcoming (min best candidate) := by
  obtain ⟨own, rng, lines⟩ := w
  unfold accept at h
  rw [result_bind, result_own] at h
  simp only at h hw
  cases own with
  | hillClimbing =>
    simp only [result_pure, Prod.mk.injEq, Except.ok.injEq] at h
    obtain ⟨rfl, rfl⟩ := h
    exact ⟨fun hlt => decide_eq_true (hlt.le.trans hle), True.intro⟩
  | randomWalk =>
    simp only [result_pure, Prod.mk.injEq, Except.ok.injEq] at h
    obtain ⟨rfl, rfl⟩ := h
    exact ⟨fun _ => rfl, True.intro⟩
  | lateAcceptance c =>
    simp only [result_settle, Prod.mk.injEq, Except.ok.injEq] at h
    obtain ⟨rfl, rfl⟩ := h
    refine ⟨LateAcceptance.accepts_of_lt hw hle, ?_⟩
    intro x hx
    exact le_trans (min_le_left _ _) (LateAcceptance.le_history_accept hw hle x hx)
  | simulatedAnnealing c =>
    obtain ⟨u, hu, hfst, hown⟩ := SimulatedAnnealing.accept_spec current candidate ⟨c, rng, lines⟩
    simp only [result_on, hfst, hown, Prod.mk.injEq, Except.ok.injEq] at h
    obtain ⟨rfl, rfl⟩ := h
    constructor
    · intro hlt
      have hone := SimulatedAnnealing.one_le_chance hexp hw.2 (hlt.trans_le hle)
      exact decide_eq_true (hu.le.trans hone)
    · exact ⟨hw.1, hw.1.trans_le (Schedule.le_next _ _ _ _)⟩
  | recordToRecord c =>
    simp only [result_settle, Prod.mk.injEq, Except.ok.injEq] at h
    obtain ⟨rfl, rfl⟩ := h
    exact ⟨fun hlt => RecordToRecord.accepts_of_neg hw.2 (sub_neg.2 hlt),
      hw.1, hw.1.trans (Schedule.le_next _ _ _ _)⟩
  | thresholdAcceptance c =>
    simp only [result_settle, Prod.mk.injEq, Except.ok.injEq] at h
    obtain ⟨rfl, rfl⟩ := h
    exact ⟨fun hlt => RecordToRecord.accepts_of_neg hw.2 (sub_neg.2 (hlt.trans_le hle)),
      hw.1, hw.1.trans (Schedule.le_next _ _ _ _)⟩
  | randomAccept c =>
    simp only [result_bind, result_draw, result_settle, Prod.mk.injEq, Except.ok.injEq] at h
    obtain ⟨rfl, rfl⟩ := h
    exact ⟨fun hlt => RandomAccept.accepts_of_lt (hlt.trans_le hle) rng, True.intro⟩
  | greatDeluge c =>
    simp only [result_settle, Prod.mk.injEq, Except.ok.injEq] at h
    obtain ⟨rfl, rfl⟩ := h
    obtain ⟨hpos, hone, hlevel⟩ := hw
    exact ⟨GreatDeluge.accepts_of_lt hlevel, hpos, hone,
      GreatDeluge.lt_level_accept hpos hone hlevel _⟩
  | nonLinearGreatDeluge c =>
    rw [bind_ok_iff] at h
    obtain ⟨d, u, hd, h⟩ := h
    simp only [result_ofExcept, Prod.mk.injEq] at hd
    simp only [result_settle, Prod.mk.injEq, Except.ok.injEq] at h
    obtain ⟨rfl, rfl⟩ := h
    exact ⟨fun hlt => NonLinearGreatDeluge.accepts_of_lt hd.1 (hlt.trans_le hle), True.intro⟩
  | movingAverage c =>
    simp only [result_settle, Prod.mk.injEq, Except.ok.injEq] at h
    obtain ⟨rfl, rfl⟩ := h
    obtain ⟨heta, hbound⟩ := hw
    refine ⟨MovingAverage.accepts_of_lt heta hbound, ?_⟩
    rw [MovingAverage.accept_snd]
    exact ⟨heta, MovingAverage.le_history_record _ hbound⟩

/-- A decision of annealing enters one of its two counters. -/
theorem accept_counts {best current candidate : K} {c : SimulatedAnnealing K} {rng : Generator}
    {lines : Array (Line K)} {v : Setting K (Criterion K)} {a : Bool}
    (h : result (accept best current candidate) ⟨simulatedAnnealing c, rng, lines⟩ = (.ok a, v)) :
    ∃ c', v.own = simulatedAnnealing c' ∧ c'.accepted = c.accepted + (if a then 1 else 0) ∧
      c'.rejected = c.rejected + (if !a then 1 else 0) := by
  unfold accept at h
  rw [result_bind, result_own] at h
  simp only at h
  obtain ⟨u, -, hfst, hown⟩ := SimulatedAnnealing.accept_spec current candidate ⟨c, rng, lines⟩
  simp only [result_on, hfst, hown, Prod.mk.injEq, Except.ok.injEq] at h
  obtain ⟨rfl, rfl⟩ := h
  refine ⟨_, rfl, ?_, ?_⟩
  · cases decide (u ≤ c.chance current candidate) <;> rfl
  · cases decide (u ≤ c.chance current candidate) <;> rfl

end Criterion

end LargeNeighbourhood
