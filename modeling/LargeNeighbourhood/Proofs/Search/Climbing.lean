/-
# Hill climbing

With hill climbing the current solution is always as good as the best one: a run begins with the
two the same, a new best solution becomes both, and any other candidate that is taken is no worse
than the current solution and no better than the best, so it has the objective they share.  This
outlasts the callback, which makes both solutions whatever it likes, but the same.

So no candidate is ever better than the current solution and not than the best, and it makes no
difference which of the two a criterion compares with.  Both threshold criteria, with thresholds of
zero, therefore search as hill climbing does, call by call and draw by draw
(`Engine.hill_climbing`).
-/
import Mathlib
import LargeNeighbourhood.Proofs.Acceptance.Reachable
import LargeNeighbourhood.Proofs.Search.Agreement
import LargeNeighbourhood.Proofs.Search.Ledger

namespace LargeNeighbourhood

open Act

/-! ## 1. Criteria that only answer -/

/-- Hill climbing as a search sees it.  It has no use for a state. -/
def HillClimbing.acceptor {K X α : Type} [LE K] [DecidableLE K] [Solution K X] :
    Acceptor K X α where
  accept := fun _ current candidate =>
    return HillClimbing.accepts (objective current) (objective candidate)

/-- In the state in which the criterion of the library is hill climbing, it is this one. -/
theorem HillClimbing.result_acceptor {K X : Type} [Scalar K] [Elementary K] [Solution K X]
    (best current candidate : X) {w : Setting K (Criterion K)} (hw : w.own = .hillClimbing) :
    result (Criterion.acceptor.accept best current candidate) w
      = result (HillClimbing.acceptor.accept best current candidate) w := by
  obtain ⟨own, rng, lines⟩ := w
  obtain rfl : own = .hillClimbing := hw
  exact Criterion.accept_hillClimbing

/-- From this state a criterion gives this answer and does nothing else. -/
def Acceptor.Answers {K X α : Type} (a : Acceptor K X α) (s : α) (best current candidate : X)
    (yes : Bool) : Prop :=
  ∀ rng lines, result (a.accept best current candidate) ⟨s, rng, lines⟩
    = (.ok yes, ⟨s, rng, lines⟩)

theorem HillClimbing.acceptor_answers {K X α : Type} [LE K] [DecidableLE K] [Solution K X] (s : α)
    (best current candidate : X) :
    acceptor.Answers s best current candidate
      (decide (objective candidate ≤ objective current)) := by
  intro rng lines
  rfl

/-- The criteria of the library that take, as long as the best and the current solution have the
same objective, what is no worse. -/
inductive Criterion.Climbs {K : Type} [Scalar K] : Criterion K → Prop
  | hillClimbing : Climbs .hillClimbing
  | thresholdAcceptance {step method c}
      (made : RecordToRecord.make 0 0 step method = .ok c) : Climbs (.thresholdAcceptance c)
  | recordToRecord {step method c}
      (made : RecordToRecord.make 0 0 step method = .ok c) : Climbs (.recordToRecord c)

section Exact

variable {K : Type} [Field K] [LinearOrder K] [IsStrictOrderedRing K]

/-- A threshold of zero stays there, so the criterion takes what is no worse than the reference
and is as it was after every decision. -/
theorem RecordToRecord.accept_of_zero {c : RecordToRecord K} {step : K} {method : Schedule}
    (h : make 0 0 step method = .ok c) (x reference : K) :
    c.accept (x - reference) = (decide (x ≤ reference), c) := by
  have hrange := (inRange_iff_of_make Scalar.numbers_exact h).2
    ⟨True.intro, True.intro, True.intro⟩
  simp only [make, Checks.guard_ok_iff, Checks.pure_ok_iff] at h
  obtain ⟨-, -, -, rfl⟩ := h
  have hnext : method.next 0 0 step = 0 :=
    le_antisymm (Schedule.next_le (le_refl _) (le_refl _) (le_refl _) (le_refl _) hrange.admits)
      (Schedule.le_next _ _ _ _)
  simp only [accept, hnext, sub_nonpos]

/-- Where best and current have one objective, the three criteria give one answer. -/
theorem Criterion.Climbs.answers {X : Type} [Elementary K] [Solution K X] {s : Criterion K}
    (h : s.Climbs) {best current : X} (heq : objective current = objective best) (candidate : X) :
    acceptor.Answers s best current candidate
      (decide (objective candidate ≤ objective current)) := by
  intro rng lines
  cases h with
  | hillClimbing =>
    rw [HillClimbing.result_acceptor best current candidate rfl]
    exact HillClimbing.acceptor_answers _ best current candidate rng lines
  | thresholdAcceptance made =>
    change result (accept (objective best) (objective current) (objective candidate)) _ = _
    rw [accept_thresholdAcceptance, RecordToRecord.accept_of_zero made]
  | recordToRecord made =>
    change result (accept (objective best) (objective current) (objective candidate)) _ = _
    rw [accept_recordToRecord, RecordToRecord.accept_of_zero made, heq]

end Exact

/-! ## 2. Exchanging the criterion -/

/-- The setting of a search with another criterion. -/
def Setting.withCriterion {K X ω σ α β τ : Type} (w : Setting K (Parts X ω σ α τ)) (s : β) :
    Setting K (Parts X ω σ β τ) where
  own :=
    { world := w.own.world, scheme := w.own.scheme, criterion := s, stop := w.own.stop
      journal := w.own.journal }
  rng := w.rng
  lines := w.lines

@[simp] theorem Setting.criterion_withCriterion {K X ω σ α β τ : Type}
    (w : Setting K (Parts X ω σ α τ)) (s : β) : (w.withCriterion s).own.criterion = s := rfl

namespace Engine

variable {K X ω σ α β τ : Type}

/-- An operator has nothing to do with the criterion. -/
theorem apply_withCriterion (op : Operator K X ω) (x : X) (s : β)
    (w : Setting K (Parts X ω σ α τ)) :
    result (Answer.solution <$> apply op x) (w.withCriterion s)
      = ((result (Answer.solution <$> apply op x) w).1,
        (result (Answer.solution <$> apply op x) w).2.withCriterion s) := by
  simp only [apply, result_map, result_on]
  rfl

/-- Nor has any callee but the criterion itself. -/
theorem callee_withCriterion (e : Engine K X ω) (m : Methods K X σ α τ) (a : Acceptor K X β)
    (s : β) (now : Int) {call : Call X} (hcall : ∀ b c y, call ≠ .accept b c y)
    (w : Setting K (Parts X ω σ α τ)) :
    result (e.callee ⟨m.selector, a, m.stopper⟩ now call) (w.withCriterion s)
      = ((result (e.callee m now call) w).1,
        (result (e.callee m now call) w).2.withCriterion s) := by
  cases call with
  | accept b c y => exact absurd rfl (hcall b c y)
  | destroy d x =>
    simp only [callee, result_bind, result_ofExcept]
    cases e.destroy.entry d (K := K) with
    | error f => rfl
    | ok op => exact apply_withCriterion op.item x s w
  | repair r x =>
    simp only [callee, result_bind, result_ofExcept]
    cases e.repair.entry r (K := K) with
    | error f => rfl
    | ok op => exact apply_withCriterion op.item x s w
  | onBest y =>
    simp only [callee]
    cases e.onBest? with
    | none => rfl
    | some op => exact apply_withCriterion op y s w
  | _ =>
    simp only [callee, result_map, result_on]
    rfl

/-- Two criteria that answer alike make runs alike, up to the criterion. -/
theorem alike_withCriterion [Solution K X] [LT K] {e : Engine K X ω} {m : Methods K X σ α τ}
    {a : Acceptor K X β} {s : β} {Inv : X → X → Prop} (hrefl : ∀ x, Inv x x)
    (hanswers : ∀ {b c}, Inv b c → ∀ y, ∃ yes, (∀ t, m.acceptor.Answers t b c y yes) ∧
      a.Answers s b c y yes ∧ (yes = true → ¬objective y < objective b → Inv b y)) :
    e.Alike m ⟨m.selector, a, m.stopper⟩ (fun w w' => w' = w.withCriterion s) Inv where
  refl := hrefl
  coupling := by
    rintro w _ rfl
    rfl
  say := by
    rintro line w _ rfl
    rw [result_sayIf, result_sayIf]
    exact ⟨.ok rfl, rfl⟩
  enter := by
    rintro call w _ rfl
    exact ⟨.ok rfl, rfl⟩
  callee := by
    rintro now call hcall w _ rfl
    rw [callee_withCriterion e m a s now hcall]
    exact ⟨.refl _, rfl⟩
  criterion := by
    rintro now b c y hinv w _ rfl
    obtain ⟨yes, hm, ha, hnext⟩ := hanswers hinv y
    simp only [callee, result_map, result_on]
    rw [hm w.own.criterion, Setting.criterion_withCriterion, ha]
    refine ⟨.ok ⟨rfl, ?_⟩, rfl⟩
    rintro hyes
    exact hnext (Answer.verdict.inj hyes)

end Engine

/-! ## 3. One round -/

section Climbing

variable {K X ω σ α τ : Type} [LinearOrder K] [Solution K X]

/-- A candidate that is no worse than the current solution, which is as good as the best, is a new
best solution or as good as the two. -/
theorem Round.climbs {r : Round X} (heq : objective r.current = objective r.best)
    (ha : r.accepted = decide (objective r.candidate ≤ objective r.current)) :
    r.outcome ≠ .better ∧ objective r.nextCurrent = objective r.nextBest := by
  unfold outcome nextCurrent nextBest
  by_cases hi : r.Improves
  · simp [hi]
  · have hle : objective r.current ≤ objective r.candidate := heq ▸ not_lt.1 hi
    simp only [if_neg hi, if_neg hle.not_gt, ha, decide_eq_true_eq]
    split
    · rename_i hcand
      exact ⟨by simp, (le_antisymm hcand hle).trans heq⟩
    · exact ⟨by simp, heq⟩

omit [LinearOrder K] in
/-- A round reports its outcome. -/
theorem Round.outcome_of_update [LT K] [DecidableLT K] (r : Round X) {y : X} {pair : Pair}
    {o : Outcome} (h : .update y pair o ∈ r.exchanges.map Exchange.call) : o = r.outcome := by
  have hcases := r.mem_calls h
  simp only [reduceCtorEq, false_or, and_false, Call.update.injEq] at hcases
  exact hcases.2.2

namespace Engine

variable {e : Engine K X ω} {m : Methods K X σ α τ} {coupling : Coupling} {clock : Nat → Int}
  {now : Int} {p q : Progress K X} {w v u : Setting K (Parts X ω σ α τ)} {r : Round X}
  {rounds : List (Round X)} {answered : List (Exchange X)} {call : Call X} {f : Fault K}

omit [LinearOrder K] in
/-- A round that got to its report asked its criterion. -/
theorem Interrupted.judged [LT K] [DecidableLT K]
    (h : e.Interrupted m coupling now w r.exchanges answered call f v) {y : X} {pair : Pair}
    {o : Outcome} (hmem : .update y pair o ∈ answered.map Exchange.call ++ [call]) :
    ∃ rng lines z, result (m.acceptor.accept r.best r.current r.candidate)
      ⟨w.own.criterion, rng, lines⟩ = (.ok r.accepted, z) := by
  obtain ⟨u, hperf, -⟩ := h.broken
  rcases hperf.judged h.scripted with ⟨hp, -⟩ | ⟨rng, lines, z, hz, -⟩
  · -- the report is the last call, and at most the first five were made
    have hscript : r.exchanges.map Exchange.call
        = (r.proposing.map Exchange.call ++ [r.question.call])
          ++ r.concluding.map Exchange.call := by
      rw [Round.exchanges_eq_question]
      simp
    have hfirst := List.prefix_of_prefix_length_le (hscript ▸ h.calls)
      (List.prefix_append _ _) (by simpa using hp.length_le)
    exact absurd (hfirst.subset hmem) (by simp [Round.proposing, Round.question])
  · exact ⟨rng, lines, z, hz⟩

variable (hm : m.acceptor = HillClimbing.acceptor)
include hm

theorem accepted_of_judged {s : α} {rng : Generator} {lines : Array (Line K)}
    {z : Setting K α} (hz : result (m.acceptor.accept r.best r.current r.candidate) ⟨s, rng, lines⟩
      = (.ok r.accepted, z)) :
    r.accepted = decide (objective r.candidate ≤ objective r.current) := by
  rw [hm, HillClimbing.acceptor_answers] at hz
  exact (Except.ok.inj (Prod.mk.inj hz).1).symm

/-! ## 4. All rounds -/

/-- **The current solution stays as good as the best**, and no round reports that a candidate is
only better than the current one. -/
theorem Rounds.climbs (h : e.Rounds m coupling clock p w rounds q u)
    (hp : objective p.current = objective p.best) :
    (∀ r ∈ rounds, objective r.current = objective r.best ∧ r.outcome ≠ .better) ∧
      objective q.current = objective q.best ∧
      objective p.current :: (rounds.map fun r => objective r.nextCurrent)
        = (rounds.map Round.best ++ [q.best]).map objective := by
  induction h with
  | nil => exact ⟨by simp, hp, by simp [hp]⟩
  | @cons p w r v said rounds q u best current lawful performed rest ih =>
    rw [← best, ← current] at hp
    obtain ⟨rng, lines, z, hz, -⟩ := performed.judged_exchanges
    obtain ⟨hbetter, hnext⟩ := Round.climbs hp (accepted_of_judged hm hz)
    obtain ⟨hrounds, hq, htrace⟩ := ih hnext
    refine ⟨List.forall_mem_cons.2 ⟨⟨hp, hbetter⟩, hrounds⟩, hq, ?_⟩
    rw [List.map_cons, List.map_cons, List.cons_append, List.map_cons, ← htrace, ← current, hp]
    rfl

/-- Nor does the round that was broken off report so. -/
theorem Cut.climbs (h : e.Cut m coupling clock p w r answered call f v)
    (hp : objective p.current = objective p.best) {y : X} {pair : Pair} {o : Outcome}
    (hmem : .update y pair o ∈ answered.map Exchange.call ++ [call]) : o ≠ .better := by
  rw [← h.best, ← h.current] at hp
  obtain ⟨rng, lines, z, hz⟩ := h.interrupted.judged hmem
  obtain ⟨hbetter, -⟩ := Round.climbs hp (accepted_of_judged hm hz)
  rw [r.outcome_of_update (h.interrupted.calls.subset hmem)]
  exact hbetter

theorem Ends.climbs {tail : List (Exchange X)} {broken? : Option (Call X)}
    {res : Except (Fault K) (Option (Progress K X))}
    (h : e.Ends m coupling clock p w tail broken? res v)
    (hp : objective p.current = objective p.best) {y : X} {pair : Pair} {o : Outcome}
    (hmem : .update y pair o ∈ tail.map Exchange.call ++ broken?.toList) : o ≠ .better := by
  cases h with
  | stopped asked => exact absurd hmem (by simp)
  | exhausted => exact absurd hmem (by simp)
  | failed cut => exact cut.climbs hm hp hmem

/-! ## 5. Whole runs -/

/-- What can be seen of a run with hill climbing. -/
theorem Account.climbs {initial : X} {tail : List (Exchange X)} {broken? : Option (Call X)}
    {res : Except (Fault K) (Option (Progress K X))} {calls : List (Call X)}
    (h : e.Account m coupling clock initial w rounds tail broken? res v)
    (hcalls : calls
      = (rounds.flatMap Round.exchanges ++ tail).map Exchange.call ++ broken?.toList) :
    (∀ best current, .shouldStop best current ∈ calls → objective current = objective best) ∧
      (∀ candidate pair o, .update candidate pair o ∈ calls → o ≠ .better) ∧
      (e.onBest? = none →
        ((calls.filterMap Call.asked?).Pairwise fun x y => objective y.2 ≤ objective x.2) ∧
        ∀ p, res = .ok (some p) →
          p.statistics.objectives.toList.Pairwise fun x y => y ≤ x) := by
  subst hcalls
  obtain ⟨said, q, u, hrounds, hends⟩ := h.course
  obtain ⟨hall, hq, htrace⟩ := hrounds.climbs hm rfl
  have hasked := hends.asked_calls rounds
  have hshared : ∀ x ∈ (rounds.map fun r => (r.best, r.current)) ++ [(q.best, q.current)],
      objective x.2 = objective x.1 := by
    intro x hx
    rcases List.mem_append.1 hx with hx | hx
    · obtain ⟨r, hr, rfl⟩ := List.mem_map.1 hx
      exact (hall r hr).1
    · rw [List.mem_singleton.1 hx]
      exact hq
  refine ⟨?_, ?_, ?_⟩
  · intro best current hcall
    exact hshared _ (hasked.subset (List.mem_filterMap.2 ⟨_, hcall, rfl⟩))
  · intro candidate pair o hcall
    rcases mem_calls_cases hcall with ⟨r, hr, hcall⟩ | hcall
    · rw [r.outcome_of_update hcall]
      exact (hall r hr).2
    · exact hends.climbs hm hq hcall
  · intro he
    have hbest := hrounds.best_antitone he
    constructor
    · -- the best solutions never get worse, and the current ones are as good
      have hmap : rounds.map Round.best ++ [q.best]
          = ((rounds.map fun r => (r.best, r.current)) ++ [(q.best, q.current)]).map
            Prod.fst := by
        simp [Function.comp_def]
      rw [hmap, List.pairwise_map] at hbest
      refine (hbest.imp_of_mem ?_).sublist hasked.sublist
      intro x y hx hy hle
      rw [hshared x hx, hshared y hy]
      exact hle
    · rintro p rfl
      rw [hends.stopped_eq.1, (hrounds.recorded rfl).1.trans htrace, List.pairwise_map]
      exact hbest

/-- A criterion that climbs makes the run of hill climbing, and is left as it was. -/
theorem run_withCriterion [Field K] [IsStrictOrderedRing K] [Elementary K] {s : Criterion K}
    (hs : s.Climbs) (clock : Nat → Int) (fuel : Nat) (initial? : Option X)
    (w : Setting K (Parts X ω σ α τ)) :
    result (e.run ⟨m.selector, Criterion.acceptor, m.stopper⟩ clock fuel initial?)
        (w.withCriterion s)
      = ((result (e.run m clock fuel initial?) w).1,
        (result (e.run m clock fuel initial?) w).2.withCriterion s) := by
  have halike : e.Alike m ⟨m.selector, Criterion.acceptor, m.stopper⟩
      (fun w w' => w' = w.withCriterion s) fun b c => objective c = objective b := by
    refine alike_withCriterion (fun _ => rfl) ?_
    intro b c heq y
    refine ⟨_, fun t => ?_, hs.answers heq y, ?_⟩
    · rw [hm]
      exact HillClimbing.acceptor_answers t b c y
    · intro htaken hnot
      exact le_antisymm ((of_decide_eq_true htaken).trans heq.le) (not_lt.1 hnot)
  obtain ⟨hmatch, hsettings⟩ := halike.run clock fuel initial? (rfl : w.withCriterion s = _)
  exact Prod.ext hmatch.eq.symm hsettings

/-- **Hill climbing keeps the current solution as good as the best.**  Where the run asks whether
to stop, the two have one objective; no report says better; and without a callback the objectives
never rise, neither where the run asks nor in its record.  In exact arithmetic, moreover, each of
the criteria that climb makes the same run: the same result in the same setting but for the state
of the criterion, and that is left as it was. -/
theorem hill_climbing {fuel : Nat} {initial? : Option X}
    {res : Except (Fault K) (Option (Progress K X))}
    (h : result (e.run m clock fuel initial?) w = (res, v)) :
    (∃ calls, v.own.journal.toList = w.own.journal.toList ++ calls ∧
      (∀ best current, .shouldStop best current ∈ calls →
        objective current = objective best) ∧
      (∀ candidate pair o, .update candidate pair o ∈ calls → o ≠ .better) ∧
      (e.onBest? = none →
        ((calls.filterMap Call.asked?).Pairwise fun x y => objective y.2 ≤ objective x.2) ∧
        ∀ p, res = .ok (some p) →
          p.statistics.objectives.toList.Pairwise fun x y => y ≤ x)) ∧
    ∀ [Field K] [IsStrictOrderedRing K] [Elementary K] {s : Criterion K}, s.Climbs →
      result (e.run ⟨m.selector, Criterion.acceptor, m.stopper⟩ clock fuel initial?)
        (w.withCriterion s) = (res, v.withCriterion s) := by
  constructor
  · rcases run_cases h with
      ⟨f, rfl, rfl⟩ | ⟨initial, coupling, rounds, tail, broken?, haccount⟩
    · exact ⟨[], by simp, by simp, by simp, fun _ => ⟨by simp, fun p hp => by cases hp⟩⟩
    · exact ⟨_, by rw [haccount.journal, List.append_assoc], haccount.climbs hm rfl⟩
  · intro _ _ _ s hs
    rw [run_withCriterion hm hs, h]

end Engine

end Climbing

namespace Countdown

/-- Hill climbing from two down below one, and the setting it leaves. -/
noncomputable def climbed : Except (Fault ℝ) (Option (Progress ℝ (Level ℝ))) ×
    Setting ℝ (Parts (Level ℝ) Unit Unit Unit Unit) :=
  result (engine.run (methods firstPair HillClimbing.acceptor 1) (fun n => (n : Int)) 3 (some ⟨2⟩))
    (setting () ())

/-- Record-to-record travel that takes nothing worse than the best solution. -/
noncomputable def tight : RecordToRecord ℝ where
  start := 0
  finish := 0
  step := 1
  method := .linear
  threshold := 0

theorem judges_hillClimbing :
    Judges (HillClimbing.acceptor : Acceptor ℝ (Level ℝ) Unit) fun _ => True :=
  fun _ _ _ _ _ => ⟨_, _, rfl, True.intro⟩

theorem make_tight : RecordToRecord.make (0 : ℝ) 0 1 .linear = .ok tight := by
  simp only [RecordToRecord.make, Checks.guard_ok_iff, Checks.pure_ok_iff]
  refine ⟨by norm_num, by norm_num, by simp [Schedule.refusesStep], rfl⟩

end Countdown

open Countdown in
/-- Hill climbing from two is stopped at zero after two iterations, keeps the current level at the
best, and travel with no threshold makes the same run. -/
theorem hill_climbing_countdown :
    (∃ p calls, climbed.1 = .ok (some p) ∧ p.statistics.iterations = 2 ∧ p.best = ⟨0⟩ ∧
      climbed.2.own.journal.toList = calls ∧
      (∀ best current, .shouldStop best current ∈ calls → current.height = best.height) ∧
      p.statistics.objectives.toList.Pairwise fun x y => y ≤ x) ∧
    result (engine.run (methods firstPair Criterion.acceptor 1) (fun n => (n : Int)) 3 (some ⟨2⟩))
        (setting () (.recordToRecord tight))
      = (climbed.1, climbed.2.withCriterion (.recordToRecord tight)) := by
  obtain ⟨p, v, hrun, hbest, -, hcount⟩ := run_from_two (K := ℝ) (w := setting () ())
    supplies_firstPair judges_hillClimbing True.intro True.intro
  have hclimbed : climbed = (.ok (some p), v) := hrun
  obtain ⟨⟨calls, hcalls, hshared, -, hfalls⟩, hsame⟩ := Engine.hill_climbing rfl hrun
  rw [hclimbed]
  exact ⟨⟨p, calls, rfl, hcount, hbest, hcalls, hshared, (hfalls rfl).2 p rfl⟩,
    hsame (.recordToRecord make_tight)⟩

end LargeNeighbourhood
