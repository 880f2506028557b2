/-
# Criteria that remember a window

Late acceptance and the moving average keep a history of bounded length: an entry comes in at the
end, and when there are too many the oldest goes.  So the history is always the last entries of all
that ever came in (`record_window`), and what a criterion decides can be said from the sequence of
entries alone.

* Late acceptance compares with what it recorded `lookback` decisions before
  (`late_acceptance_compares`).  What it records may depend on that again, so the entries are a
  sequence defined by recursion, `LateAcceptance.recorded`.
* The moving average compares with a threshold between the least entry and the mean of the last
  candidates, the present one among them (`moving_average_zone`).
-/
import Mathlib
import LargeNeighbourhood.Proofs.Acceptance.Decisions
import LargeNeighbourhood.Proofs.Acceptance.Downward

namespace LargeNeighbourhood

/-! ## 1. Windows -/

section Window

variable {K : Type} {z : ℕ → K} {size n : ℕ}

/-- The last `size` of the first `n` entries of a sequence, oldest first; all of them if there are
fewer. -/
def window (size : ℕ) (z : ℕ → K) (n : ℕ) : List K := (List.Ico (n - size) n).map z

@[simp] theorem window_zero : window size z 0 = [] := by
  simp [window]

theorem length_window : (window size z n).length = min n size := by
  rw [window, List.length_map, List.Ico.length]
  omega

/-- The oldest entry of a window came in `size` entries ago, or is the first one of all. -/
theorem window_eq_cons (hsize : 0 < size) (hn : 0 < n) :
    window size z n = z (n - size) :: (List.Ico (n - size + 1) n).map z := by
  rw [window, List.Ico.eq_cons (by omega), List.map_cons]

/-- **A window that takes in the next entry, and drops the oldest if there are too many**, is the
window one entry later. -/
theorem record_window (z : ℕ → K) (size n : ℕ) :
    (if size < (window size z n ++ [z n]).length then (window size z n ++ [z n]).tail
      else window size z n ++ [z n]) = window size z (n + 1) := by
  have hgrown : window size z n ++ [z n] = (List.Ico (n - size) (n + 1)).map z := by
    rw [List.Ico.succ_top (Nat.sub_le n size), List.map_append, List.map_singleton, window]
  rw [hgrown, List.length_map, List.Ico.length]
  split
  · -- the window was full
    have hfrom : n - size + 1 = n + 1 - size := by omega
    rw [List.Ico.eq_cons (by omega), List.map_cons, List.tail_cons, hfrom, window]
  · have hfrom : n - size = n + 1 - size := by omega
    rw [hfrom, window]

end Window

/-! ## 2. A sequence of decisions -/

namespace Criterion

variable {K : Type} [Scalar K] [Elementary K] {c : Criterion K} {x : ℕ → Occasion K} {n : ℕ}

/-- The criterion before it decides on occasion `n` of a sequence, where the first one is number
zero. -/
def before (c : Criterion K) (x : ℕ → Occasion K) (n : ℕ) : Criterion K :=
  c.after ((List.range n).map x)

@[simp] theorem before_zero : c.before x 0 = c := rfl

theorem before_succ : c.before x (n + 1) = (c.before x n).step (x n) := by
  rw [before, List.range_succ, List.map_append, List.map_singleton, after_concat, before]

end Criterion

/-! ## 3. Late acceptance -/

namespace LateAcceptance

section Recorded

variable {K : Type} [LT K] [DecidableLT K] {s : LateAcceptance K} {current : ℕ → K} {y : K}
  {n : ℕ}

/-- What each decision records, given the current objectives that the decisions see.  The lookback
is taken to be at least one. -/
def recorded (s : LateAcceptance K) (current : ℕ → K) : ℕ → K
  | 0 => current 0
  | n + 1 =>
    if s.betterHistory then
      Scalar.lower (current (n + 1)) (s.recorded current (n - (s.lookback - 1)))
    else current (n + 1)

@[simp] theorem recorded_zero : s.recorded current 0 = current 0 := by
  rw [recorded]

theorem recorded_of_pos (hpos : 0 < s.lookback) (hn : 0 < n) :
    s.recorded current n =
      if s.betterHistory then Scalar.lower (current n) (s.recorded current (n - s.lookback))
      else current n := by
  obtain ⟨k, rfl⟩ := Nat.exists_eq_succ_of_ne_zero hn.ne'
  have hlag : k - (s.lookback - 1) = k + 1 - s.lookback := by omega
  rw [recorded, hlag]

/-- A decision with the last recorded objectives in its history compares with the one that was
recorded `lookback` decisions before, and goes on with the next one. -/
theorem accept_window (hpos : 0 < s.lookback) (current : ℕ → K) (n : ℕ) (y : K) :
    ({ s with history := window s.lookback (s.recorded current) n } : LateAcceptance K).accept
        (current n) y =
      (decide (y < s.recorded current (n - s.lookback)) || (s.greedy && decide (y < current n)),
        { s with history := window s.lookback (s.recorded current) (n + 1) }) := by
  have hrecord := record_window (s.recorded current) s.lookback n
  cases n with
  | zero =>
    -- without a history the reference is the current objective, which is recorded as well
    rw [window_zero, List.nil_append, recorded_zero] at hrecord
    simp only [accept, window_zero, record, List.nil_append, hrecord, Nat.zero_sub, recorded_zero]
    cases decide (y < current 0) <;> simp
  | succ n =>
    rw [window_eq_cons hpos n.succ_pos, recorded_of_pos hpos n.succ_pos] at hrecord
    simp only [accept, window_eq_cons hpos n.succ_pos, record, hrecord]

/-- Without a lookback nothing is recorded, and a decision compares with the current objective. -/
theorem accept_of_lookback_zero (hzero : s.lookback = 0) (hnew : s.history = []) (x : K) :
    s.accept x y = (decide (y < x), s) := by
  obtain ⟨lookback, greedy, betterHistory, history⟩ := s
  cases hzero
  cases hnew
  rfl

/-- Where the lower objectives are kept, what is recorded is not above what was recorded `lookback`
decisions before. -/
theorem not_lt_recorded [Std.Irrefl (· < · : K → K → Prop)] (hpos : 0 < s.lookback)
    (hbetter : s.betterHistory = true) (hn : 0 < n) :
    ¬s.recorded current (n - s.lookback) < s.recorded current n := by
  rw [recorded_of_pos hpos hn, if_pos hbetter, Scalar.lower]
  split
  · exact Std.Irrefl.irrefl _
  · assumption

end Recorded

end LateAcceptance

namespace Criterion

variable {K : Type} [Scalar K] [Elementary K] {s : LateAcceptance K}

/-- **The history of late acceptance** is the window of what was recorded. -/
theorem before_lateAcceptance (hnew : s.history = []) (hpos : 0 < s.lookback)
    (x : ℕ → Occasion K) (n : ℕ) :
    (lateAcceptance s).before x n = lateAcceptance
      { s with history := window s.lookback (s.recorded fun i => (x i).current) n } := by
  induction n with
  | zero => rw [before_zero, window_zero, ← hnew]
  | succ n ih =>
    have haccept := LateAcceptance.accept_window hpos (fun i => (x i).current) n (x n).candidate
    rw [before_succ, ih, step_lateAcceptance, haccept]

/-- Without a lookback late acceptance stays as it is. -/
theorem step_lateAcceptance_of_zero (hnew : s.history = []) (hzero : s.lookback = 0)
    (x : Occasion K) : (lateAcceptance s).step x = lateAcceptance s := by
  rw [step_lateAcceptance, LateAcceptance.accept_of_lookback_zero hzero hnew]

theorem before_lateAcceptance_of_zero (hnew : s.history = []) (hzero : s.lookback = 0)
    (x : ℕ → Occasion K) (n : ℕ) : (lateAcceptance s).before x n = lateAcceptance s :=
  after_of_step_eq (step_lateAcceptance_of_zero hnew hzero) _

end Criterion

/-- **Late acceptance compares with what it recorded `lookback` decisions before**, or in its first
decision, as long as there are fewer.  With `r n` for what decision `n` records (the first one is
number zero) and `ref n` for what it compares with, the history is the last `lookback` entries of
`r`; a greedy criterion also takes what is better than the current solution; and where the lower
objectives are kept, the reference is never above the one of `lookback` decisions before.  Without a
lookback there is no history, and a candidate has to be better than the current solution. -/
theorem late_acceptance_compares {K : Type} [Scalar K] [Elementary K]
    [Std.Irrefl (· < · : K → K → Prop)] (lookback : ℕ) (greedy betterHistory : Bool)
    (x : ℕ → Occasion K) :
    ∃ s, LateAcceptance.make lookback greedy betterHistory = .ok s ∧
      (0 < lookback → ∃ r ref : ℕ → K, r 0 = (x 0).current ∧
        (∀ n, 0 < n → ref n = r (n - lookback) ∧
          r n = if betterHistory then Scalar.lower (x n).current (ref n) else (x n).current) ∧
        (∀ n, ∃ t, (Criterion.lateAcceptance s).before x n = .lateAcceptance t ∧
          t.history = (List.Ico (n - lookback) n).map r) ∧
        (Criterion.lateAcceptance s).answer (x 0)
          = .ok (decide ((x 0).candidate < (x 0).current)) ∧
        (∀ n, 0 < n → ((Criterion.lateAcceptance s).before x n).answer (x n)
          = .ok (decide ((x n).candidate < ref n)
              || (greedy && decide ((x n).candidate < (x n).current)))) ∧
        (betterHistory = true → ∀ n, 0 < n → ¬ref n < ref (n + lookback))) ∧
      (lookback = 0 → ∀ n, ∃ t, (Criterion.lateAcceptance s).before x n = .lateAcceptance t ∧
        t.history = [] ∧ ((Criterion.lateAcceptance s).before x n).answer (x n)
          = .ok (decide ((x n).candidate < (x n).current))) := by
  have hmade : LateAcceptance.make lookback greedy betterHistory
      = (.ok { lookback, greedy, betterHistory } : Except (Fault K) _) := by
    rw [LateAcceptance.make, if_neg (by omega), Int.toNat_natCast]
  refine ⟨_, hmade, fun hpos => ?_, ?_⟩
  · set s : LateAcceptance K := { lookback, greedy, betterHistory }
    set r := s.recorded fun i => (x i).current
    have hbefore := Criterion.before_lateAcceptance (s := s) rfl hpos x
    refine ⟨r, fun n => r (n - lookback), LateAcceptance.recorded_zero, fun n hn => ⟨rfl, ?_⟩,
      fun n => ⟨_, hbefore n, rfl⟩, rfl, fun n hn => ?_, fun hbetter n hn => ?_⟩
    · exact LateAcceptance.recorded_of_pos hpos hn
    · have haccept := LateAcceptance.accept_window (s := s) hpos (fun i => (x i).current) n
        (x n).candidate
      rw [hbefore, Criterion.answer_lateAcceptance, haccept]
    · simpa only [Nat.add_sub_cancel] using LateAcceptance.not_lt_recorded hpos hbetter hn
  · rintro rfl n
    have hbefore := Criterion.before_lateAcceptance_of_zero
      (s := ({ lookback := 0, greedy, betterHistory } : LateAcceptance K)) rfl rfl x n
    exact ⟨_, hbefore, rfl, by rw [hbefore]; rfl⟩

/-- Current objectives two, three, one and three again, about candidates between two and three. -/
noncomputable def Countdown.bumpy (n : ℕ) : Occasion ℝ :=
  ⟨0, [2, 3, 1].getD n 3, 2 + 1 / 2, ⟨0, 1⟩, #[]⟩

open Countdown in
/-- A lookback of two that keeps the lower objectives has recorded two, two and one.  So the fourth
decision compares with two and not with three, and refuses what is better than the current
solution. -/
theorem late_acceptance_compares_bumpy :
    ∃ s, LateAcceptance.make (2 : ℕ) false true = .ok s ∧
      (∃ t, (Criterion.lateAcceptance s).before bumpy 3 = .lateAcceptance t ∧
        t.history = [2, 1]) ∧
      ((Criterion.lateAcceptance s).before bumpy 3).answer (bumpy 3) = .ok false := by
  obtain ⟨s, hs, h, -⟩ := late_acceptance_compares 2 false true bumpy
  obtain ⟨r, ref, hfirst, hnext, hhistory, -, hanswer, -⟩ := h two_pos
  have hzero : r 0 = 2 := hfirst
  have hone : r 1 = 2 := by
    rw [(hnext 1 one_pos).2, (hnext 1 one_pos).1, hzero]
    norm_num [Scalar.lower, bumpy]
  have htwo : r 2 = 1 := by
    rw [(hnext 2 two_pos).2, (hnext 2 two_pos).1, hzero]
    norm_num [Scalar.lower, bumpy]
  refine ⟨s, hs, ?_, ?_⟩
  · obtain ⟨t, ht, hwindow⟩ := hhistory 3
    have hentries : (List.Ico (3 - 2) 3).map r = [r 1, r 2] := rfl
    refine ⟨t, ht, ?_⟩
    rw [hwindow, hentries, hone, htwo]
  · rw [hanswer 3 three_pos, (hnext 3 three_pos).1, hone]
    norm_num [bumpy]

/-! ## 4. The moving average -/

section Threshold

variable {K : Type} [Field K] [LinearOrder K] {s : MovingAverage K}

/-- What the constructor makes of its arguments. -/
theorem MovingAverage.eq_of_make {eta : K} {gamma : Int} (h : make eta gamma = .ok s) :
    s = { eta, gamma := gamma.toNat } := by
  simp only [make, Checks.guard_ok_iff, Checks.pure_ok_iff] at h
  exact h.2.2.symm

/-- **The history of a moving average** is the window of the last candidates. -/
theorem Criterion.before_movingAverage [Elementary K] (hnew : s.history = [])
    (x : ℕ → Occasion K) (n : ℕ) : (movingAverage s).before x n
      = movingAverage { s with history := window s.gamma (fun i => (x i).candidate) n } := by
  induction n with
  | zero => rw [before_zero, window_zero, ← hnew]
  | succ n ih =>
    have hrecord := record_window (fun i => (x i).candidate) s.gamma n
    rw [before_succ, ih, step_movingAverage, MovingAverage.accept_snd]
    simp only [MovingAverage.record, hrecord]

/-- The answer is a comparison with the threshold of the window that the candidate came into. -/
theorem Criterion.answer_before_movingAverage [Elementary K] (hnew : s.history = [])
    (x : ℕ → Occasion K) {n : ℕ} {a : K} {rest : List K}
    (hwindow : window s.gamma (fun i => (x i).candidate) (n + 1) = a :: rest) :
    ((movingAverage s).before x n).answer (x n)
      = .ok (decide ((x n).candidate ≤ s.threshold a rest)) := by
  rw [before_movingAverage hnew, answer_movingAverage]
  simp only [MovingAverage.accept, MovingAverage.record, record_window, hwindow]
  rfl

theorem Scalar.isLeast_least (a : K) (rest : List K) :
    IsLeast {z | z ∈ a :: rest} (Scalar.least a rest) :=
  ⟨Scalar.least_mem a rest, fun _ hz => Scalar.least_le hz⟩

/-- The threshold is the least entry, and from there `eta` of the way to the mean. -/
theorem MovingAverage.threshold_eq (a : K) (rest : List K) :
    s.threshold a rest = Scalar.least a rest
      + s.eta * ((a :: rest).sum / (a :: rest).length - Scalar.least a rest) := by
  simp only [threshold, Scalar.sum_eq_sum, List.length_cons]

/-- A threshold is never above the mean. -/
theorem MovingAverage.threshold_le_mean [IsStrictOrderedRing K] (hone : s.eta ≤ 1) (a : K)
    (rest : List K) : s.threshold a rest ≤ (a :: rest).sum / (a :: rest).length := by
  have hgap := sub_nonneg.2 (Scalar.least_le_mean a rest)
  rw [Scalar.sum_eq_sum, ← List.length_cons (a := a)] at hgap
  rw [threshold_eq]
  linarith [mul_le_mul_of_nonneg_right hone hgap]

end Threshold

/-- **What a moving average takes.**  Decision `n`, the first one being number zero, leaves the last
`gamma` of the candidates so far in the history, its own among them.  It takes its candidate if that
is at most `eta` of the way from the least of them to their mean.  So it takes a candidate that is
no worse than the others and refuses one that is above the mean; with `eta` zero it takes the least
only, and with a window of one candidate it takes all. -/
theorem moving_average_zone {K : Type} [Field K] [LinearOrder K] [IsStrictOrderedRing K]
    [Elementary K] {eta : K} {gamma : Int} {s : MovingAverage K}
    (made : MovingAverage.make eta gamma = .ok s) (x : ℕ → Occasion K) (n : ℕ) :
    let entries := (List.Ico (n + 1 - gamma.toNat) (n + 1)).map fun i => (x i).candidate
    let mean := entries.sum / entries.length
    let answer := ((Criterion.movingAverage s).before x n).answer (x n)
    entries.length = min (n + 1) gamma.toNat ∧
      (∃ t, (Criterion.movingAverage s).before x (n + 1) = .movingAverage t ∧
        t.history = entries) ∧
      ∃ m, IsLeast {z | z ∈ entries} m ∧
        answer = .ok (decide ((x n).candidate ≤ m + eta * (mean - m))) ∧
        m ≤ m + eta * (mean - m) ∧ m + eta * (mean - m) ≤ mean ∧
        ((∀ z ∈ entries, (x n).candidate ≤ z) → answer = .ok true) ∧
        (mean < (x n).candidate → answer = .ok false) ∧
        (eta = 0 → answer = .ok (decide (∀ z ∈ entries, (x n).candidate ≤ z))) ∧
        (gamma = 1 → answer = .ok true) := by
  intro entries mean answer
  have hrange := MovingAverage.inRange_of_make made
  cases MovingAverage.eq_of_make made
  obtain ⟨a, rest, hentries⟩ : ∃ a rest, entries = a :: rest :=
    ⟨_, _, window_eq_cons hrange.gamma_pos n.succ_pos⟩
  have hleast := Scalar.isLeast_least a rest
  have hanswer : answer = _ := Criterion.answer_before_movingAverage rfl x hentries
  have hge := MovingAverage.le_threshold hrange.eta_nonneg hleast.2
  have hle := MovingAverage.threshold_le_mean hrange.eta_le a rest
  rw [MovingAverage.threshold_eq, ← hentries] at hanswer hge hle
  rw [← hentries] at hleast
  have hbelow : (x n).candidate ≤ Scalar.least a rest ↔ ∀ z ∈ entries, (x n).candidate ≤ z :=
    le_isGLB_iff hleast.isGLB
  have htaken : (∀ z ∈ entries, (x n).candidate ≤ z) → answer = .ok true := fun h => by
    rw [hanswer, decide_eq_true ((hbelow.2 h).trans hge)]
  have hrefused : mean < (x n).candidate → answer = .ok false := fun h => by
    rw [hanswer, decide_eq_false (not_le.2 (hle.trans_lt h))]
  refine ⟨length_window, ⟨_, Criterion.before_movingAverage rfl x (n + 1), rfl⟩, _, hleast,
    hanswer, hge, hle, htaken, hrefused, fun hzero => ?_, fun hone => htaken fun z hz => ?_⟩
  · rw [hanswer, hzero, zero_mul, add_zero, decide_eq_decide.2 hbelow]
  · -- the candidate is alone in its window
    have halone : entries = [(x n).candidate] := by
      simp only [entries, hone, Int.toNat_one, Nat.add_sub_cancel, List.Ico.succ_singleton,
        List.map_singleton]
    rw [halone, List.mem_singleton] at hz
    exact hz.ge

/-- Candidates with the objectives zero, three and two. -/
noncomputable def Countdown.swings (n : ℕ) : Occasion ℝ := ⟨0, 0, [0, 3].getD n 2, ⟨0, 1⟩, #[]⟩

open Countdown in
/-- In a window of two, three is above the mean of zero and three, and is refused.  Two is taken: the
zero has left the window, and two is the least of what is there. -/
theorem moving_average_zone_swings :
    MovingAverage.make (1 / 2 : ℝ) 2 = .ok average ∧
      ((Criterion.movingAverage average).before swings 1).answer (swings 1) = .ok false ∧
      ((Criterion.movingAverage average).before swings 2).answer (swings 2) = .ok true ∧
      ∃ t, (Criterion.movingAverage average).before swings 3 = .movingAverage t ∧
        t.history = [3, 2] := by
  obtain ⟨-, -, m, -, -, -, -, -, hrefused, -⟩ := moving_average_zone make_average swings 1
  obtain ⟨-, hhistory, m, -, -, -, -, htaken, -⟩ := moving_average_zone make_average swings 2
  have hmean : ([0, 3] : List ℝ).sum / ([0, 3] : List ℝ).length < 3 := by norm_num
  have hleast : ∀ z ∈ ([3, 2] : List ℝ), 2 ≤ z := by norm_num
  exact ⟨make_average, hrefused hmean, htaken hleast, hhistory⟩

end LargeNeighbourhood
