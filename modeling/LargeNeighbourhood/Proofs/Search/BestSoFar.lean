/-
# The best solution so far

Whatever the criterion answers and whatever the callback makes of a new best solution, the best
solution is never worse than the current one: a round either makes the two the same, or keeps the
best and lets a candidate in that is no better.

Without a callback more is true.  The best solution is then a fold over the history of the run,
that is the initial solution and the candidates in order: it is the earliest entry of least
objective (`EarliestLeast`).  One more candidate at the end keeps that up, so every round does.
-/
import Mathlib
import LargeNeighbourhood.Proofs.Search.Protocol

namespace LargeNeighbourhood

open Act

variable {K X : Type} [Solution K X] [LinearOrder K]

/-! ## 1. The earliest least entry -/

/-- An entry of a history is the earliest of those with the least objective: all before it are
worse, and none after it is better. -/
def EarliestLeast (history : List X) (x : X) : Prop :=
  ∃ before after, history = before ++ x :: after ∧
    (∀ y ∈ before, objective x < objective y) ∧ ∀ y ∈ after, objective x ≤ objective y

theorem EarliestLeast.singleton (x : X) : EarliestLeast [x] x :=
  ⟨[], [], rfl, by simp, by simp⟩

/-- No entry is better than the earliest least one. -/
theorem EarliestLeast.le {history : List X} {x y : X} (h : EarliestLeast history x)
    (hy : y ∈ history) : objective x ≤ objective y := by
  obtain ⟨before, after, rfl, hbefore, hafter⟩ := h
  rcases List.mem_append.1 hy with hy | hy
  · exact le_of_lt (hbefore y hy)
  · rcases List.mem_cons.1 hy with rfl | hy
    · exact le_refl _
    · exact hafter y hy

/-- One more entry becomes the earliest least one exactly when it is better. -/
theorem EarliestLeast.snoc {history : List X} {x : X} (h : EarliestLeast history x) (y : X) :
    EarliestLeast (history ++ [y]) (if objective y < objective x then y else x) := by
  by_cases hlt : objective y < objective x
  · rw [if_pos hlt]
    refine ⟨history, [], rfl, ?_, by simp⟩
    intro z hz
    exact lt_of_lt_of_le hlt (h.le hz)
  · rw [if_neg hlt]
    obtain ⟨before, after, rfl, hbefore, hafter⟩ := h
    refine ⟨before, after ++ [y], by simp, hbefore, ?_⟩
    intro z hz
    rcases List.mem_append.1 hz with hz | hz
    · exact hafter z hz
    · rw [List.mem_singleton.1 hz]
      exact not_lt.1 hlt

/-- The first entry is the earliest least one if and only if no other is better. -/
theorem EarliestLeast.eq_head_iff {x b : X} {rest : List X} (h : EarliestLeast (x :: rest) b) :
    b = x ↔ ∀ y ∈ rest, ¬objective y < objective x := by
  constructor
  · rintro rfl y hy
    exact not_lt.2 (h.le (List.mem_cons_of_mem _ hy))
  · intro hrest
    obtain ⟨before, after, heq, hbefore, -⟩ := h
    cases before with
    | nil => exact (List.cons.inj heq).1.symm
    | cons z before =>
      obtain ⟨rfl, rfl⟩ := List.cons.inj heq
      exact absurd (hbefore x (by simp)) (hrest b (by simp))

/-! ## 2. One round -/

namespace Round

variable {r : Round X}

/-- After a round the best solution is no worse than the current one, if it was so before. -/
theorem nextBest_le (h : objective r.best ≤ objective r.current) :
    objective r.nextBest ≤ objective r.nextCurrent := by
  unfold nextBest nextCurrent
  by_cases hi : r.Improves
  · rw [if_pos hi, if_pos hi]
  · rw [if_neg hi, if_neg hi]
    cases r.accepted with
    | true => exact not_lt.1 hi
    | false => exact h

/-- Without an answer of the callback the best objective is the lower of two. -/
theorem objective_nextBest (h : r.polished? = none) :
    objective r.nextBest = min (objective r.best) (objective r.candidate) := by
  rw [nextBest_eq h]
  split
  · rename_i hlt
    exact (min_eq_right (le_of_lt hlt)).symm
  · rename_i hlt
    exact (min_eq_left (not_lt.1 hlt)).symm

/-- The next current solution is then the candidate or the one before. -/
theorem nextCurrent_eq_or (h : r.polished? = none) :
    r.nextCurrent = r.candidate ∨ r.nextCurrent = r.current := by
  unfold nextCurrent improved
  rw [h]
  split
  · exact Or.inl rfl
  · split
    · exact Or.inl rfl
    · exact Or.inr rfl

end Round

/-! ## 3. What the journal shows -/

/-- The best and the current solution, where a call asks whether to stop. -/
def Call.asked? : Call X → Option (X × X)
  | .shouldStop best current => some (best, current)
  | _ => none

/-- The candidate, where a call reports one. -/
def Call.reported? : Call X → Option X
  | .update candidate _ _ => some candidate
  | _ => none

namespace Round

variable (r : Round X)

/-- The only question of a round whether to stop is its first call. -/
theorem asked_exchanges :
    (r.exchanges.map Exchange.call).filterMap Call.asked? = [(r.best, r.current)] := by
  cases h : r.polished? with
  | none =>
    rw [exchanges, polishing, h]
    rfl
  | some z =>
    rw [exchanges, polishing, h]
    rfl

/-- The only report of a round is its last call. -/
theorem reported_exchanges :
    (r.exchanges.map Exchange.call).filterMap Call.reported? = [r.candidate] := by
  cases h : r.polished? with
  | none =>
    rw [exchanges, polishing, h]
    rfl
  | some z =>
    rw [exchanges, polishing, h]
    rfl

theorem asked_flatMap (rounds : List (Round X)) :
    ((rounds.flatMap Round.exchanges).map Exchange.call).filterMap Call.asked?
      = rounds.map fun r => (r.best, r.current) := by
  induction rounds with
  | nil => rfl
  | cons r rounds ih =>
    rw [List.flatMap_cons, List.map_append, List.filterMap_append, asked_exchanges, ih]
    rfl

theorem reported_flatMap (rounds : List (Round X)) :
    ((rounds.flatMap Round.exchanges).map Exchange.call).filterMap Call.reported?
      = rounds.map Round.candidate := by
  induction rounds with
  | nil => rfl
  | cons r rounds ih =>
    rw [List.flatMap_cons, List.map_append, List.filterMap_append, reported_exchanges, ih]
    rfl

end Round

/-! ## 4. All rounds -/

/-- Where a run stands, the last objective of its record is that of the current solution. -/
def Progress.UpToDate (p : Progress K X) : Prop :=
  p.statistics.objectives.back? = some (objective p.current)

omit [Solution K X] [LinearOrder K] in
theorem Statistics.objectives_recordTime (s : Statistics K) (now : Int) :
    (s.recordTime now).objectives = s.objectives := by
  unfold Statistics.recordTime
  split <;> rfl

namespace Engine

variable {ω σ α τ : Type} {e : Engine K X ω} {m : Methods K X σ α τ} {coupling : Coupling}
  {clock : Nat → Int} {p q : Progress K X} {w v u : Setting K (Parts X ω σ α τ)}
  {rounds : List (Round X)} {tail : List (Exchange X)} {broken? : Option (Call X)}
  {res : Except (Fault K) (Option (Progress K X))}

omit [LinearOrder K] in
theorem upToDate_opening (now : Int) (initial : X) :
    (opening now initial : Progress K X).UpToDate := by
  rw [Progress.UpToDate, opening, Statistics.objectives_recordTime]
  rfl

omit [LinearOrder K] in
theorem objectives_recorded (now : Int) (p : Progress K X) (t : Turn X) :
    (recorded now p t).statistics.objectives
      = p.statistics.objectives.push (objective t.current) := by
  rw [recorded, Statistics.objectives_recordTime]
  rfl

omit [LinearOrder K] in
theorem upToDate_recorded (now : Int) (p : Progress K X) (t : Turn X) :
    (recorded now p t).UpToDate := by
  rw [Progress.UpToDate, objectives_recorded]
  exact Array.back?_push

namespace Rounds

theorem best_le_current (h : e.Rounds m coupling clock p w rounds q u)
    (hp : objective p.best ≤ objective p.current) :
    (∀ r ∈ rounds, objective r.best ≤ objective r.current) ∧
      objective q.best ≤ objective q.current := by
  induction h with
  | nil => exact ⟨by simp, hp⟩
  | cons best current lawful performed rest ih =>
    rw [← best, ← current] at hp
    obtain ⟨hrounds, hq⟩ := ih (Round.nextBest_le hp)
    exact ⟨List.forall_mem_cons.2 ⟨hp, hrounds⟩, hq⟩

theorem upToDate (h : e.Rounds m coupling clock p w rounds q u) (hp : p.UpToDate) :
    q.UpToDate := by
  induction h with
  | nil => exact hp
  | cons best current lawful performed rest ih => exact ih (upToDate_recorded _ _ _)

section NoCallback

variable (he : e.onBest? = none)
include he

/-- No later best solution is worse than the first. -/
theorem best_le (h : e.Rounds m coupling clock p w rounds q u) :
    ∀ x ∈ rounds.map Round.best ++ [q.best], objective x ≤ objective p.best := by
  induction h with
  | nil =>
    intro x hx
    rw [List.mem_singleton.1 hx]
  | @cons p w r v said rounds q u best current lawful performed rest ih =>
    intro x hx
    rcases List.mem_cons.1 hx with rfl | hx
    · rw [best]
    · have hnext : objective r.nextBest ≤ objective p.best := by
        rw [Round.objective_nextBest (lawful.polished?_eq_none he), best]
        exact min_le_left _ _
      exact le_trans (ih x hx) hnext

/-- The best solution never gets worse from one round to the next. -/
theorem best_antitone (h : e.Rounds m coupling clock p w rounds q u) :
    (rounds.map Round.best ++ [q.best]).Pairwise fun x y => objective y ≤ objective x := by
  induction h with
  | nil => exact List.pairwise_singleton _ _
  | cons best current lawful performed rest ih =>
    have hle := best_le he (.cons best current lawful performed rest)
    rw [← best] at hle
    exact List.pairwise_cons.2 ⟨fun x hx => hle x (List.mem_cons_of_mem _ hx), ih⟩

/-- The best solution stays the earliest least entry of the history. -/
theorem earliestLeast (h : e.Rounds m coupling clock p w rounds q u) {history : List X}
    (hp : EarliestLeast history p.best) :
    EarliestLeast (history ++ rounds.map Round.candidate) q.best := by
  induction h generalizing history with
  | nil => simpa using hp
  | @cons p w r v said rounds q u best current lawful performed rest ih =>
    have hnext : EarliestLeast (history ++ [r.candidate]) r.nextBest := by
      rw [Round.nextBest_eq (lawful.polished?_eq_none he), best]
      exact hp.snoc r.candidate
    simpa using ih hnext

/-- The current solution stays an entry of the history. -/
theorem current_mem (h : e.Rounds m coupling clock p w rounds q u) {history : List X}
    (hp : p.current ∈ history) : q.current ∈ history ++ rounds.map Round.candidate := by
  induction h generalizing history with
  | nil => simpa using hp
  | @cons p w r v said rounds q u best current lawful performed rest ih =>
    have hnext : r.nextCurrent ∈ history ++ [r.candidate] := by
      rcases Round.nextCurrent_eq_or (lawful.polished?_eq_none he) with h | h
      · simp [h]
      · rw [h, current]
        exact List.mem_append_left _ hp
    simpa using ih hnext

end NoCallback

end Rounds

/-! ## 5. The end of a run -/

/-- At its end a run asks once more whether to stop, at most. -/
theorem Ends.asked (h : e.Ends m coupling clock p w tail broken? res v) :
    (tail.map Exchange.call ++ broken?.toList).filterMap Call.asked?
      <+: [(p.best, p.current)] := by
  cases h with
  | stopped asked => exact List.prefix_refl _
  | exhausted => exact List.nil_prefix
  | @failed r answered call f v cut =>
    have hprefix := cut.interrupted.calls.filterMap Call.asked?
    rw [Round.asked_exchanges, cut.best, cut.current] at hprefix
    exact hprefix

/-- A run that the rule stopped ends where it stands, without a report. -/
theorem Ends.stopped_eq {p' : Progress K X}
    (h : e.Ends m coupling clock p w tail broken? (.ok (some p')) v) :
    p' = p ∧ (tail.map Exchange.call ++ broken?.toList).filterMap Call.reported? = [] := by
  cases h with
  | stopped asked => exact ⟨rfl, rfl⟩

/-- The questions of a run whether to stop are those of its rounds, and one more at most. -/
theorem Ends.asked_calls (h : e.Ends m coupling clock q u tail broken? res v)
    (rounds : List (Round X)) :
    ((rounds.flatMap Round.exchanges ++ tail).map Exchange.call ++ broken?.toList).filterMap
        Call.asked?
      <+: (rounds.map fun r => (r.best, r.current)) ++ [(q.best, q.current)] := by
  rw [List.map_append, List.append_assoc, List.filterMap_append, Round.asked_flatMap]
  exact (List.prefix_append_right_inj _).2 h.asked

/-- The reports of a run that was stopped are those of its rounds. -/
theorem Ends.reported_calls {p' : Progress K X}
    (h : e.Ends m coupling clock q u tail broken? (.ok (some p')) v) (rounds : List (Round X)) :
    ((rounds.flatMap Round.exchanges ++ tail).map Exchange.call ++ broken?.toList).filterMap
        Call.reported?
      = rounds.map Round.candidate := by
  rw [List.map_append, List.append_assoc, List.filterMap_append, Round.reported_flatMap,
    h.stopped_eq.2, List.append_nil]

/-- **The best solution so far.**  Where the run asks whether to stop, the best solution is no
worse than the current one, and the record of a run that was stopped ends with the objective of
the current solution.  Without a callback, moreover, the best solution never gets worse, and a run
that was stopped has for its best solution the earliest least entry of its history and for its
current solution some entry. -/
theorem best_so_far {fuel : Nat} {initial? : Option X} {initial : X}
    (ready : e.prepare (m.selector.coupling w.own.scheme) initial? = .ok (initial, coupling))
    (h : result (e.run m clock fuel initial?) w = (res, v)) :
    ∃ calls, v.own.journal.toList = w.own.journal.toList ++ calls ∧
      (∀ best current, .shouldStop best current ∈ calls → objective best ≤ objective current) ∧
      (∀ p, res = .ok (some p) → p.statistics.objectives.back? = some (objective p.current)) ∧
      (e.onBest? = none →
        ((calls.filterMap Call.asked?).Pairwise fun x y => objective y.1 ≤ objective x.1) ∧
        ∀ p, res = .ok (some p) →
          EarliestLeast (initial :: calls.filterMap Call.reported?) p.best ∧
          (p.best = initial ↔
            ∀ y ∈ calls.filterMap Call.reported?, ¬objective y < objective initial) ∧
          p.current ∈ initial :: calls.filterMap Call.reported?) := by
  obtain ⟨rounds, tail, broken?, ⟨⟨said, q, u, hrounds, hends⟩, hjournal⟩, -⟩ :=
    exists_account ready h
  obtain ⟨hle, hq⟩ := hrounds.best_le_current (le_refl _)
  have hasked := hends.asked_calls rounds
  refine ⟨_, by rw [hjournal, List.append_assoc], ?_, ?_, ?_⟩
  · intro best current hcall
    have hmem := hasked.subset (List.mem_filterMap.2 ⟨_, hcall, rfl⟩)
    rcases List.mem_append.1 hmem with hmem | hmem
    · obtain ⟨r, hr, heq⟩ := List.mem_map.1 hmem
      cases heq
      exact hle r hr
    · cases List.mem_singleton.1 hmem
      exact hq
  · rintro p rfl
    rw [hends.stopped_eq.1]
    exact hrounds.upToDate (upToDate_opening _ _)
  · intro he
    constructor
    · have hbest := hrounds.best_antitone he
      have hmap : rounds.map Round.best ++ [q.best]
          = ((rounds.map fun r => (r.best, r.current)) ++ [(q.best, q.current)]).map Prod.fst := by
        simp [Function.comp_def]
      rw [hmap, List.pairwise_map] at hbest
      exact hbest.sublist hasked.sublist
    · rintro p rfl
      have hleast := hrounds.earliestLeast he (EarliestLeast.singleton initial)
      rw [hends.reported_calls, hends.stopped_eq.1]
      exact ⟨hleast, hleast.eq_head_iff, hrounds.current_mem he (List.mem_singleton_self initial)⟩

end Engine

open Countdown in
/-- The countdown from two reports two levels, and stops at zero, the earliest least one. -/
theorem best_so_far_countdown :
    ∃ p calls, ran.1 = .ok (some p) ∧ p.statistics.iterations = 2 ∧
      ran.2.own.journal.toList = calls ∧ ⟨0⟩ ∈ calls.filterMap Call.reported? ∧
      (∀ best current, .shouldStop best current ∈ calls → best.height ≤ current.height) ∧
      p.best = ⟨0⟩ ∧ EarliestLeast (⟨2⟩ :: calls.filterMap Call.reported?) p.best := by
  obtain ⟨p, v, hran, hbest, hcurrent, hcount⟩ := ran_eq
  obtain ⟨calls, hcalls, hle, -, hleast⟩ :=
    Engine.best_so_far (prepare_countdown (⟨2⟩ : Level Int)) hran
  obtain ⟨hearliest, -, hmem⟩ := (hleast rfl).2 p rfl
  have hreported : ⟨0⟩ ∈ calls.filterMap Call.reported? := by
    rw [hcurrent] at hmem
    rcases List.mem_cons.1 hmem with heq | hmem
    · exact absurd (congrArg Level.height heq) (by decide)
    · exact hmem
  rw [hran]
  exact ⟨p, calls, rfl, hcount, hcalls, hreported, hle, hbest, hearliest⟩

end LargeNeighbourhood
