/-
# How far record-to-record travel strays

Record-to-record travel takes a candidate whose objective exceeds the best by no more than the
threshold of that moment.  The threshold only falls, from its start, so no more than the start lies
between the best and the current solution when a candidate was just taken.  Nor does it later: the
best solution only ever changes together with the current one, and then the two are the same.
That holds whatever the callback makes of a new best solution.

The bound is the start of the schedule, also for a criterion that is in use already
(`Engine.deviation_le_start`).
-/
import Mathlib
import LargeNeighbourhood.Proofs.Acceptance.NewBest
import LargeNeighbourhood.Proofs.Acceptance.Reachable

namespace LargeNeighbourhood

open Act

/-! ## 1. The criterion -/

namespace Criterion

variable {K : Type} [Field K] [LinearOrder K] [IsStrictOrderedRing K]

/-- Record-to-record travel that started with this threshold. -/
structure TravelsFrom (start : K) (s : Criterion K) : Prop where
  travels : ∃ c, s = .recordToRecord c ∧ c.start = start
  inRange : s.InRange
  bounded : s.Bounded

variable {start : K} {s : Criterion K}

omit [IsStrictOrderedRing K] in
theorem TravelsFrom.start_nonneg (h : s.TravelsFrom start) : 0 ≤ start := by
  obtain ⟨⟨c, rfl, rfl⟩, ⟨hfinish, hle, -⟩, -⟩ := h
  exact hfinish.trans hle

/-- **One decision**: what is taken exceeds the best by no more than the start of the threshold,
and the criterion goes on from the same start. -/
theorem TravelsFrom.accept [Elementary K] (h : s.TravelsFrom start) {best current candidate : K}
    {rng : Generator} {lines : Array (Line K)} {taken : Bool} {z : Setting K (Criterion K)}
    (hz : result (accept best current candidate) ⟨s, rng, lines⟩ = (.ok taken, z)) :
    (taken = true → candidate ≤ best + start) ∧ z.own.TravelsFrom start := by
  obtain ⟨hrange, hbounded⟩ := inRange_bounded_accept best current candidate
    (w := ⟨s, rng, lines⟩) h.inRange h.bounded
  rw [hz] at hrange hbounded
  obtain ⟨⟨c, rfl, rfl⟩, -, hthreshold⟩ := h
  rw [accept_recordToRecord] at hz
  obtain ⟨htaken, rfl⟩ := Prod.mk.inj hz
  refine ⟨?_, ⟨_, rfl, rfl⟩, hrange, hbounded⟩
  rintro rfl
  have hgap : candidate - best ≤ c.threshold := of_decide_eq_true (Except.ok.inj htaken)
  linarith [hthreshold.2]

end Criterion

/-! ## 2. What the journal shows -/

/-- The best and the current solution, where a call tells both. -/
def Call.shown? {X : Type} : Call X → Option (X × X)
  | .shouldStop best current | .select best current | .accept best current _ =>
    some (best, current)
  | _ => none

section Shown

variable {K X ω σ α τ : Type} [Solution K X] [LT K] [DecidableLT K]

/-- The calls of a round show the solutions it begins with. -/
theorem Round.shown {r : Round X} {call : Call X} {x : X × X}
    (h : call ∈ r.exchanges.map Exchange.call) (hx : call.shown? = some x) :
    x = (r.best, r.current) := by
  rcases r.mem_calls h with rfl | rfl | rfl | rfl | rfl | ⟨-, rfl⟩ | rfl
  all_goals first
    | exact (Option.some.inj hx).symm
    | exact absurd hx (by simp [Call.shown?])

/-- The calls with which a run ends show where it stands. -/
theorem Engine.Ends.shown {e : Engine K X ω} {m : Methods K X σ α τ} {coupling : Coupling}
    {clock : Nat → Int} {p : Progress K X} {w v : Setting K (Parts X ω σ α τ)}
    {tail : List (Exchange X)} {broken? : Option (Call X)}
    {res : Except (Fault K) (Option (Progress K X))}
    (h : e.Ends m coupling clock p w tail broken? res v) {call : Call X} {x : X × X}
    (hcall : call ∈ tail.map Exchange.call ++ broken?.toList) (hx : call.shown? = some x) :
    x = (p.best, p.current) := by
  cases h with
  | stopped asked =>
    simp only [List.map_cons, List.map_nil, Option.toList_none, List.append_nil,
      List.mem_singleton] at hcall
    rw [hcall] at hx
    exact (Option.some.inj hx).symm
  | exhausted => exact absurd hcall (by simp)
  | failed cut =>
    rw [← cut.best, ← cut.current]
    exact Round.shown (cut.interrupted.calls.subset hcall) hx

end Shown

/-! ## 3. All rounds -/

section Deviation

variable {K X ω σ τ : Type} [Field K] [LinearOrder K] [IsStrictOrderedRing K] [Solution K X]

/-- A round that begins within a margin ends within it. -/
theorem Round.next_le_of_margin {r : Round X} {margin : K} (hmargin : 0 ≤ margin)
    (hr : objective r.current ≤ objective r.best + margin)
    (ha : r.accepted = true → objective r.candidate ≤ objective r.best + margin) :
    objective r.nextCurrent ≤ objective r.nextBest + margin := by
  unfold nextCurrent nextBest
  by_cases hi : r.Improves
  · rw [if_pos hi, if_pos hi]
    exact le_add_of_nonneg_right hmargin
  · rw [if_neg hi, if_neg hi]
    split
    · rename_i htaken
      exact ha htaken
    · exact hr

namespace Engine

variable [Elementary K] {e : Engine K X ω} {m : Methods K X σ (Criterion K) τ}
  {coupling : Coupling} {clock : Nat → Int} {p q : Progress K X}
  {w v u : Setting K (Parts X ω σ (Criterion K) τ)} {rounds : List (Round X)}

theorem Rounds.deviation_le (hm : m.acceptor = Criterion.acceptor)
    (h : e.Rounds m coupling clock p w rounds q u) {start : K}
    (hw : w.own.criterion.TravelsFrom start)
    (hp : objective p.current ≤ objective p.best + start) :
    (∀ r ∈ rounds, objective r.current ≤ objective r.best + start) ∧
      objective q.current ≤ objective q.best + start := by
  induction h with
  | nil => exact ⟨by simp, hp⟩
  | @cons p w r v said rounds q u best current lawful performed rest ih =>
    rw [← best, ← current] at hp
    obtain ⟨rng, lines, z, hz, hown⟩ := performed.judged_exchanges
    rw [hm] at hz
    obtain ⟨htaken, hnext⟩ := hw.accept hz
    obtain ⟨hrounds, hq⟩ := ih (hown ▸ hnext)
      (Round.next_le_of_margin hw.start_nonneg hp htaken)
    exact ⟨List.forall_mem_cons.2 ⟨hp, hrounds⟩, hq⟩

/-! ## 4. Whole runs -/

/-- **Record-to-record travel strays no further than its threshold at the start.**  The current
solution exceeds the best by no more than that at every call that tells the two, and at the end of
a run that was stopped; also if the criterion is in use already. -/
theorem deviation_le_start (hm : m.acceptor = Criterion.acceptor)
    (hreach : w.own.criterion.Reachable) {c : RecordToRecord K}
    (hc : w.own.criterion = .recordToRecord c) {fuel : Nat} {initial? : Option X}
    {res : Except (Fault K) (Option (Progress K X))}
    (h : result (e.run m clock fuel initial?) w = (res, v)) :
    ∃ calls, v.own.journal.toList = w.own.journal.toList ++ calls ∧
      (∀ call ∈ calls, ∀ best current, call.shown? = some (best, current) →
        objective current ≤ objective best + c.start) ∧
      ∀ p, res = .ok (some p) → objective p.current ≤ objective p.best + c.start := by
  rcases run_cases h with ⟨f, rfl, rfl⟩ | ⟨initial, coupling, rounds, tail, broken?, haccount⟩
  · exact ⟨[], by simp, by simp, fun p hp => by cases hp⟩
  · obtain ⟨said, q, u, hrounds, hends⟩ := haccount.course
    have hw : (w.saying said).own.criterion.TravelsFrom c.start :=
      ⟨⟨c, hc, rfl⟩, hreach.inRange_bounded.1, hreach.inRange_bounded.2⟩
    obtain ⟨hall, hq⟩ := hrounds.deviation_le hm hw (le_add_of_nonneg_right hw.start_nonneg)
    refine ⟨_, by rw [haccount.journal, List.append_assoc], ?_, ?_⟩
    · intro call hcall best current hshown
      rcases mem_calls_cases hcall with ⟨r, hr, hcall⟩ | hcall
      · cases Round.shown hcall hshown
        exact hall r hr
      · cases hends.shown hcall hshown
        exact hq
    · rintro p rfl
      rw [hends.stopped_eq.1]
      exact hq

end Engine

end Deviation

namespace Countdown

/-- Record-to-record travel that starts at a threshold of two. -/
noncomputable def loose : RecordToRecord ℝ where
  start := 2
  finish := 0
  step := 1
  method := .linear
  threshold := 2

theorem make_loose : RecordToRecord.make (2 : ℝ) 0 1 .linear = .ok loose := by
  simp only [RecordToRecord.make, Checks.guard_ok_iff, Checks.pure_ok_iff]
  refine ⟨by norm_num, by norm_num, by simp [Schedule.refusesStep], rfl⟩

/-- The same criterion after it took a candidate of objective two. -/
noncomputable def travelled : Setting ℝ (Criterion ℝ) :=
  (result (Criterion.accept 2 2 2) ⟨.recordToRecord loose, ⟨0, 1⟩, #[]⟩).2

/-- What comes of counting down from two with the used criterion, and the setting it leaves. -/
noncomputable def strayed : Except (Fault ℝ) (Option (Progress ℝ (Level ℝ))) ×
    Setting ℝ (Parts (Level ℝ) Unit Unit (Criterion ℝ) Unit) :=
  result (engine.run (methods firstPair Criterion.acceptor 1) (fun n => (n : Int)) 3 (some ⟨2⟩))
    (setting () travelled.own)

end Countdown

open Countdown in
/-- A countdown from two with a criterion in use is stopped at zero after two iterations, and keeps
the current level within two of the best. -/
theorem deviation_le_start_countdown :
    ∃ p calls, strayed.1 = .ok (some p) ∧ p.statistics.iterations = 2 ∧ p.best = ⟨0⟩ ∧
      strayed.2.own.journal.toList = calls ∧
      (∀ call ∈ calls, ∀ best current, call.shown? = some (best, current) →
        current.height ≤ best.height + 2) ∧
      p.current.height ≤ p.best.height + 2 := by
  have hreach : travelled.own.Reachable := .decided 2 2 2 (.fresh (.recordToRecord make_loose))
  have hused : travelled.own = .recordToRecord (loose.accept ((2 : ℝ) - 2)).2 := by
    rw [travelled, Criterion.accept_recordToRecord]
  obtain ⟨p, v, hrun, hbest, -, hcount⟩ := run_from_two (K := ℝ) (w := setting () travelled.own)
    supplies_firstPair judges_criterion True.intro fun _ => hused ▸ nofun
  have hstrayed : strayed = (.ok (some p), v) := hrun
  obtain ⟨calls, hcalls, hshown, hlast⟩ := Engine.deviation_le_start rfl hreach hused hrun
  rw [hstrayed]
  exact ⟨p, calls, rfl, hcount, hbest, hcalls, hshown, hlast p rfl⟩

end LargeNeighbourhood
