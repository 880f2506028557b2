/-
# A record is the projection of its log

A record takes in four kinds of events, which may come in any mixture: an objective, a time stamp, an
outcome of a destroy operator and one of a repair operator.  Each event touches what belongs to its own
kind and nothing else, so what a record holds of a kind is made of the events of that kind alone
(`holds_ofLog`).

Only the time stamps have a memory: a stamp closes the stretch that the stamp before it began.  The
stretches are therefore the gaps between neighbouring stamps (`gaps`), and their sum telescopes to the
last stamp less the first (`sum_gaps`).  The two tallies are counts of their events, and so the order of
the events does not matter to them.
-/
import Mathlib
import LargeNeighbourhood.Proofs.Scalar.Exact
import LargeNeighbourhood.Proofs.Tally

namespace LargeNeighbourhood

namespace Statistics

/-! ## 1. Exact seconds -/

/-- In exact arithmetic stretches may be added before or after they are turned into seconds. -/
theorem sum_seconds {F : Type} [Field F] [LinearOrder F] (stretches : List Int) :
    Scalar.sum (stretches.map fun n => (seconds n : F)) = seconds stretches.sum := by
  simp only [Scalar.sum_eq_sum, seconds, Scalar.ofInt_eq_cast, div_eq_mul_inv]
  rw [List.sum_map_mul_right, Int.cast_list_sum]

/-! ## 2. Gaps between time stamps -/

/-- The gaps between neighbouring time stamps. -/
def gaps : List Int → List Int
  | [] => []
  | [_] => []
  | before :: now :: rest => (now - before) :: gaps (now :: rest)

theorem gaps_concat_of_none {times : List Int} (now : Int) (h : times.getLast? = none) :
    gaps (times ++ [now]) = [] := by
  rw [List.getLast?_eq_none_iff.1 h]
  rfl

/-- A later stamp closes one more stretch. -/
theorem gaps_concat_of_some {times : List Int} {before : Int} (now : Int)
    (h : times.getLast? = some before) : gaps (times ++ [now]) = gaps times ++ [now - before] := by
  induction times using gaps.induct with
  | case1 => exact absurd h (by simp)
  | case2 first =>
    obtain rfl : first = before := by simpa using h
    rfl
  | case3 first second rest ih =>
    rw [List.getLast?_cons_cons] at h
    rw [List.cons_append, List.cons_append, gaps, ← List.cons_append, ih h, gaps,
      List.cons_append]

theorem length_gaps (times : List Int) : (gaps times).length = times.length - 1 := by
  induction times using gaps.induct with
  | case1 => rfl
  | case2 first => rfl
  | case3 first second rest ih =>
    rw [gaps, List.length_cons, ih]
    rfl

/-- A stretch leads from each stamp to the next. -/
theorem getElem?_gaps {times : List Int} {i : Nat} {before now : Int}
    (hbefore : times[i]? = some before) (hnow : times[i + 1]? = some now) :
    (gaps times)[i]? = some (now - before) := by
  induction times using gaps.induct generalizing i with
  | case1 => exact absurd hbefore (by simp)
  | case2 first => exact absurd hnow (by simp)
  | case3 first second rest ih =>
    rw [gaps]
    cases i with
    | zero =>
      obtain rfl : first = before := by simpa using hbefore
      obtain rfl : second = now := by simpa using hnow
      rfl
    | succ i => exact ih hbefore hnow

/-- **The stretches add up to the last stamp less the first.** -/
theorem sum_gaps {times : List Int} {first last : Int} (hfirst : times.head? = some first)
    (hlast : times.getLast? = some last) : (gaps times).sum = last - first := by
  induction times using gaps.induct generalizing first with
  | case1 => exact absurd hfirst (by simp)
  | case2 only =>
    obtain rfl : only = first := by simpa using hfirst
    obtain rfl : only = last := by simpa using hlast
    rw [gaps, List.sum_nil, Int.sub_self]
  | case3 before now rest ih =>
    obtain rfl : before = first := by simpa using hfirst
    rw [List.getLast?_cons_cons] at hlast
    rw [gaps, List.sum_cons, ih rfl hlast]
    omega

/-! ## 3. One event -/

variable {K : Type} {s : Statistics K} {objectives : List K} {times : List Int}
  {destroys repairs : List (String × Outcome)}

/-- What a record holds after some events, each kind of them for itself. -/
structure Holds (s : Statistics K) (objectives : List K) (times : List Int)
    (destroys repairs : List (String × Outcome)) : Prop where
  objectives : s.objectives.toList = objectives
  start : s.start? = times.head?
  last : s.last? = times.getLast?
  stretches : s.stretches.toList = gaps times
  destroyCounts : s.destroyCounts = Tally.ofEvents destroys
  repairCounts : s.repairCounts = Tally.ofEvents repairs

theorem Holds.recordObjective (h : s.Holds objectives times destroys repairs) (x : K) :
    (s.recordObjective x).Holds (objectives ++ [x]) times destroys repairs where
  __ := h
  objectives := by rw [Statistics.recordObjective, Array.toList_push, h.objectives]

/-- The first stamp starts the clock, and a later one closes a stretch. -/
theorem Holds.recordTime (h : s.Holds objectives times destroys repairs) (now : Int) :
    (s.recordTime now).Holds objectives (times ++ [now]) destroys repairs := by
  unfold Statistics.recordTime
  rw [h.last]
  cases hlast : times.getLast? with
  | none =>
    have hnil := List.getLast?_eq_none_iff.1 hlast
    exact
      { h with
        start := by rw [hnil]; rfl
        last := List.getLast?_concat.symm
        stretches := by rw [gaps_concat_of_none now hlast, h.stretches, hnil]; rfl }
  | some before =>
    obtain ⟨first, rest, rfl⟩ :=
      List.exists_cons_of_ne_nil (List.ne_nil_of_mem (List.mem_of_getLast? hlast))
    exact
      { h with
        start := h.start
        last := List.getLast?_concat.symm
        stretches := by
          rw [gaps_concat_of_some now hlast, ← h.stretches]
          exact Array.toList_push }

theorem Holds.recordDestroy (h : s.Holds objectives times destroys repairs) (name : String)
    (o : Outcome) :
    (s.recordDestroy name o).Holds objectives times (destroys ++ [(name, o)]) repairs where
  __ := h
  destroyCounts := by
    rw [Statistics.recordDestroy, h.destroyCounts, Tally.ofEvents_append]
    rfl

theorem Holds.recordRepair (h : s.Holds objectives times destroys repairs) (name : String)
    (o : Outcome) :
    (s.recordRepair name o).Holds objectives times destroys (repairs ++ [(name, o)]) where
  __ := h
  repairCounts := by
    rw [Statistics.recordRepair, h.repairCounts, Tally.ofEvents_append]
    rfl

/-! ## 4. Logs -/

/-- One event that a record takes in. -/
inductive Event (K : Type) where
  | objective (x : K)
  | time (now : Int)
  | destroy (name : String) (o : Outcome)
  | repair (name : String) (o : Outcome)

namespace Event

/-- The record after one more event. -/
@[simp] def enter (s : Statistics K) : Event K → Statistics K
  | objective x => s.recordObjective x
  | time now => s.recordTime now
  | destroy name o => s.recordDestroy name o
  | repair name o => s.recordRepair name o

/-- The objective that an event brings. -/
@[simp] def objective? : Event K → Option K
  | objective x => some x
  | _ => none

/-- The time stamp that an event brings. -/
@[simp] def time? : Event K → Option Int
  | time now => some now
  | _ => none

/-- The outcome of a destroy operator that an event brings. -/
@[simp] def destroy? : Event K → Option (String × Outcome)
  | destroy name o => some (name, o)
  | _ => none

/-- The outcome of a repair operator that an event brings. -/
@[simp] def repair? : Event K → Option (String × Outcome)
  | repair name o => some (name, o)
  | _ => none

end Event

/-- The record of a log. -/
def ofLog (log : List (Event K)) : Statistics K := log.foldl Event.enter {}

/-- **A record is the projection of its log**, each kind of events for itself. -/
theorem holds_ofLog (log : List (Event K)) :
    (ofLog log).Holds (log.filterMap Event.objective?) (log.filterMap Event.time?)
      (log.filterMap Event.destroy?) (log.filterMap Event.repair?) := by
  induction log using List.reverseRecOn with
  | nil => exact ⟨rfl, rfl, rfl, rfl, rfl, rfl⟩
  | append_singleton log event ih =>
    have hlog : ofLog (log ++ [event]) = event.enter (ofLog log) := List.foldl_concat ..
    rw [hlog]
    simp only [List.filterMap_append, List.filterMap_cons, List.filterMap_nil]
    cases event with
    | objective x => simpa using ih.recordObjective x
    | time now => simpa using ih.recordTime now
    | destroy name o => simpa using ih.recordDestroy name o
    | repair name o => simpa using ih.recordRepair name o

/-! ## 5. Answers -/

/-- A table answers for the names that have events, with the numbers of these, and for no others. -/
structure Counts (role : String) (events : List (String × Outcome))
    (answer : String → Except (Fault K) OutcomeCounts) : Prop where
  ok : ∀ name c, answer name = .ok c ↔
    name ∈ events.map Prod.fst ∧ ∀ o, c.get o = events.count (name, o)
  error : ∀ name f, answer name = .error f ↔
    name ∉ events.map Prod.fst ∧ f = .noStatistics role name

/-- A look-up that fails with the name answers so. -/
theorem counts_ofEvents (role : String) (events : List (String × Outcome)) :
    Counts (K := K) role events fun name =>
      match Tally.find? (Tally.ofEvents events) name with
      | some c => .ok c
      | none => .error (.noStatistics role name) where
  ok name c := by
    rw [← Tally.find?_ofEvents_eq_some]
    cases Tally.find? (Tally.ofEvents events) name with
    | none => simp
    | some found => simp
  error name f := by
    rw [← Tally.find?_ofEvents_isSome]
    cases Tally.find? (Tally.ofEvents events) name with
    | none => simp [eq_comm]
    | some found => simp

theorem Holds.counts_destroy (h : s.Holds objectives times destroys repairs) :
    Counts "destroy" destroys (s.destroyCountsOf : String → Except (Fault K) OutcomeCounts) := by
  unfold destroyCountsOf
  rw [h.destroyCounts]
  exact counts_ofEvents "destroy" destroys

theorem Holds.counts_repair (h : s.Holds objectives times destroys repairs) :
    Counts "repair" repairs (s.repairCountsOf : String → Except (Fault K) OutcomeCounts) := by
  unfold repairCountsOf
  rw [h.repairCounts]
  exact counts_ofEvents "repair" repairs

theorem Holds.iterations (h : s.Holds objectives times destroys repairs) :
    s.iterations = times.length - 1 := by
  rw [Statistics.iterations, ← Array.length_toList, h.stretches, length_gaps]

/-- A stretch leads from each stamp to the next. -/
theorem Holds.stretch (h : s.Holds objectives times destroys repairs) {i : Nat} {before now : Int}
    (hbefore : times[i]? = some before) (hnow : times[i + 1]? = some now) :
    s.stretches[i]? = some (now - before) := by
  rw [← Array.getElem?_toList, h.stretches]
  exact getElem?_gaps hbefore hnow

theorem Holds.elapsed (h : s.Holds objectives times destroys repairs) {first last : Int}
    (hfirst : times.head? = some first) (hlast : times.getLast? = some last) :
    s.elapsed = last - first := by
  rw [Statistics.elapsed, ← Array.foldl_toList, h.stretches, ← List.sum_eq_foldl]
  exact sum_gaps hfirst hlast

/-- Where stamps are at most `2⁶³` apart, their difference is one of signed words of 64 bits. -/
theorem toInt_sub_ofInt {before now : Int} (hlow : -2 ^ 63 ≤ now - before)
    (hhigh : now - before < 2 ^ 63) :
    (Int64.ofInt now - Int64.ofInt before).toInt = now - before := by
  rw [← Int64.ofInt_sub, Int64.toInt_ofInt_of_le hlow hhigh]

/-- **A record is the exact projection of its log.**  The objectives stand in their order.  The first
stamp is the start, each later one is an iteration, and an iteration took as long as its stamp is after
the one before, also in signed words of 64 bits where no two stamps are too far apart.  The times
telescope: in whole nanoseconds always, in seconds where arithmetic is exact.  Each of the two tables
answers for the names it has events of, with their numbers, and refuses all others; it knows neither the
order of its events nor any events of another kind. -/
theorem record_of_log [Scalar K] (log : List (Event K)) :
    let s := ofLog log
    let times := log.filterMap Event.time?
    s.objectives.toList = log.filterMap Event.objective? ∧
    s.start? = times.head? ∧ s.iterations = times.length - 1 ∧
    s.runtimes.length = s.iterations ∧
    (∀ (i : Nat) before now, times[i]? = some before → times[i + 1]? = some now →
      s.stretches[i]? = some (now - before) ∧ s.runtimes[i]? = some (seconds (now - before))) ∧
    ((∀ before ∈ times, ∀ now ∈ times, -2 ^ 63 ≤ now - before ∧ now - before < 2 ^ 63) →
      ∀ (i : Nat) before now, times[i]? = some before → times[i + 1]? = some now →
        s.stretches[i]? = some (Int64.ofInt now - Int64.ofInt before).toInt) ∧
    (∀ first last, times.head? = some first → times.getLast? = some last →
      s.elapsed = last - first) ∧
    Counts "destroy" (log.filterMap Event.destroy?)
      (s.destroyCountsOf : String → Except (Fault K) OutcomeCounts) ∧
    Counts "repair" (log.filterMap Event.repair?)
      (s.repairCountsOf : String → Except (Fault K) OutcomeCounts) ∧
    (∀ role name, (Fault.noStatistics role name : Fault K).kind = .outOfRange) ∧
    (∀ other : List (Event K),
      ((other.filterMap Event.destroy?).Perm (log.filterMap Event.destroy?) →
        (ofLog other).destroyCounts = s.destroyCounts) ∧
      ((other.filterMap Event.repair?).Perm (log.filterMap Event.repair?) →
        (ofLog other).repairCounts = s.repairCounts)) ∧
    ∀ {F : Type} [Field F] [LinearOrder F] (timed : List (Event F)) first last,
      (timed.filterMap Event.time?).head? = some first →
      (timed.filterMap Event.time?).getLast? = some last →
      (ofLog timed).totalRuntime = ((last - first : ℤ) : F) / 1000000000 := by
  intro s times
  have h := holds_ofLog log
  have hrow : s.runtimes = s.stretches.toList.map seconds := rfl
  refine ⟨h.objectives, h.start, h.iterations, ?_, fun i before now hbefore hnow => ?_,
    fun hfit i before now hbefore hnow => ?_, fun first last => h.elapsed, h.counts_destroy,
    h.counts_repair, fun role name => rfl, fun other => ⟨fun hperm => ?_, fun hperm => ?_⟩, ?_⟩
  · rw [hrow, List.length_map, Array.length_toList]
    rfl
  · have hstretch := h.stretch hbefore hnow
    refine ⟨hstretch, ?_⟩
    rw [hrow, List.getElem?_map, Array.getElem?_toList, hstretch, Option.map_some]
  · obtain ⟨hlow, hhigh⟩ := hfit before (List.mem_of_getElem? hbefore) now
      (List.mem_of_getElem? hnow)
    rw [toInt_sub_ofInt hlow hhigh]
    exact h.stretch hbefore hnow
  · rw [(holds_ofLog other).destroyCounts, h.destroyCounts]
    exact Tally.ofEvents_eq_of_perm hperm
  · rw [(holds_ofLog other).repairCounts, h.repairCounts]
    exact Tally.ofEvents_eq_of_perm hperm
  · intro F _ _ timed first last hfirst hlast
    have hsum := (holds_ofLog timed).stretches
    rw [totalRuntime, runtimes, sum_seconds, hsum, sum_gaps hfirst hlast, seconds,
      Scalar.ofInt_eq_cast, Nat.cast_ofNat]

/-- Events of all kinds in a mixture, with a clock that was set back. -/
def mingled : List (Event ℚ) :=
  [.destroy "worst" .best, .time 5, .objective 3, .time 9, .repair "worst" .reject,
    .destroy "random" .accept, .objective 1, .destroy "worst" .best, .time 7]

/-- Its record has two iterations and two nanoseconds in all, and only the destroy table knows what
"random" did. -/
theorem record_of_log_mingled :
    let s := ofLog mingled
    s.iterations = 2 ∧ s.runtimes[1]? = some (seconds (7 - 9)) ∧
    s.stretches[1]? = some (Int64.ofInt 7 - Int64.ofInt 9).toInt ∧ s.elapsed = 7 - 5 ∧
    (s.destroyCountsOf "worst" : Except (Fault ℚ) OutcomeCounts) = .ok { best := 2 } ∧
    (s.repairCountsOf "random" : Except (Fault ℚ) OutcomeCounts)
      = .error (.noStatistics "repair" "random") ∧
    (ofLog mingled.reverse).destroyCounts = s.destroyCounts ∧
    s.totalRuntime = ((7 - 5 : ℤ) : ℚ) / 1000000000 := by
  intro s
  obtain ⟨-, -, hiterations, -, hstretch, hwords, helapsed, hdestroy, hrepair, -, hother, htotal⟩ :=
    record_of_log mingled
  have htimes : mingled.filterMap Event.time? = [5, 9, 7] := rfl
  have hdestroys : mingled.filterMap Event.destroy?
      = [("worst", .best), ("random", .accept), ("worst", .best)] := rfl
  have hrepairs : mingled.filterMap Event.repair? = [("worst", .reject)] := rfl
  rw [htimes] at hwords
  refine ⟨hiterations, (hstretch 1 9 7 rfl rfl).2, ?_, helapsed 5 7 rfl rfl, ?_, ?_, ?_,
    htotal mingled 5 7 rfl rfl⟩
  · refine hwords ?_ 1 9 7 rfl rfl
    simp
  · rw [hdestroy.ok, hdestroys]
    refine ⟨by simp, fun o => ?_⟩
    cases o <;> decide
  · rw [hrepair.error, hrepairs]
    exact ⟨by decide, rfl⟩
  · refine (hother mingled.reverse).1 ?_
    rw [List.filterMap_reverse]
    exact List.reverse_perm _

end Statistics

end LargeNeighbourhood
