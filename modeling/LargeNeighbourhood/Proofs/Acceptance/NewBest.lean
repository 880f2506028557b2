/-
# New best solutions in a run

A run without a callback that begins with a new criterion of the library: its criterion takes
every candidate that is better than the best solution of its iteration.  The criterion is asked
once in a round and left alone by all other calls (`Performs.judged`), so what one decision keeps,
`Criterion.Welcoming`, every round keeps.

Since no new best solution is refused, the outcomes of a run say how often its criterion said yes
and how often no, and these are the two counters of annealing.
-/
import Mathlib
import LargeNeighbourhood.Proofs.Acceptance.Reachable
import LargeNeighbourhood.Proofs.Search.BestSoFar

namespace LargeNeighbourhood

open Act

/-! ## 1. The one question of a round -/

theorem prefix_append_cons {α : Type} {l before after : List α} {a : α}
    (h : l <+: before ++ a :: after) :
    l <+: before ∨ ∃ rest, rest <+: after ∧ l = before ++ a :: rest := by
  induction before generalizing l with
  | nil =>
    rcases List.prefix_cons_iff.1 h with rfl | ⟨rest, rfl, hrest⟩
    · exact Or.inl List.nil_prefix
    · exact Or.inr ⟨rest, hrest, rfl⟩
  | cons b before ih =>
    rcases List.prefix_cons_iff.1 h with rfl | ⟨l, rfl, hl⟩
    · exact Or.inl List.nil_prefix
    · rcases ih hl with hl | ⟨rest, hrest, rfl⟩
      · exact Or.inl (List.cons_prefix_cons.2 ⟨rfl, hl⟩)
      · exact Or.inr ⟨rest, hrest, rfl⟩

namespace Engine

variable {K X ω σ α τ : Type} {e : Engine K X ω} {now : Int}

section Criterion

variable {m : Methods K X σ α τ} {w v : Setting K (Parts X ω σ α τ)}

/-- The answer to the question is the criterion's own. -/
theorem Exchanged.judged {b c y : X} {a : Bool}
    (h : e.Exchanged m now w ⟨.accept b c y, .verdict a⟩ v) :
    ∃ rng lines z, result (m.acceptor.accept b c y) ⟨w.own.criterion, rng, lines⟩ = (.ok a, z) ∧
      v.own.criterion = z.own := by
  obtain ⟨said, h⟩ := h
  obtain ⟨a', z, ha, hz, hown⟩ := map_on_ok h
  cases ha
  exact ⟨_, _, z, hz, congrArg Parts.criterion hown⟩

variable [Solution K X] [LT K] [DecidableLT K] {r : Round X} {answered : List (Exchange X)}

/-- As far as a round got, its criterion was either not asked and is as it was, or was asked once,
and is what that decision made of it. -/
theorem Performs.judged (h : e.Performs m now w answered v) (hp : answered <+: r.exchanges) :
    (answered <+: r.proposing ∧ v.own.criterion = w.own.criterion) ∨
      ∃ rng lines z, result (m.acceptor.accept r.best r.current r.candidate)
          ⟨w.own.criterion, rng, lines⟩ = (.ok r.accepted, z) ∧
        v.own.criterion = z.own := by
  have hproposing : ∀ x ∈ r.proposing,
      x.call.Keeps (Parts.criterion : Parts X ω σ α τ → α) := by
    simp [Round.proposing, keeps_criterion]
  have hconcluding : ∀ x ∈ r.concluding,
      x.call.Keeps (Parts.criterion : Parts X ω σ α τ → α) := by
    cases hz : r.polished? <;> simp [Round.concluding, Round.polishing, hz, keeps_criterion]
  rw [Round.exchanges_eq_question] at hp
  rcases prefix_append_cons hp with hp | ⟨rest, hrest, rfl⟩
  · exact Or.inl ⟨hp, h.keeps (fun _ _ => rfl) fun x hx => hproposing x (hp.subset hx)⟩
  · obtain ⟨u, hbefore, hafter⟩ := h.split
    have hu : u.own.criterion = w.own.criterion := hbefore.keeps (fun _ _ => rfl) hproposing
    cases hafter with
    | cons head tail =>
      obtain ⟨rng, lines, z, hz, hown⟩ := head.judged
      rw [hu] at hz
      refine Or.inr ⟨rng, lines, z, hz, Eq.trans ?_ hown⟩
      exact tail.keeps (fun _ _ => rfl) fun x hx => hconcluding x (hrest.subset hx)

/-- In a whole round the criterion was asked. -/
theorem Performs.judged_exchanges (h : e.Performs m now w r.exchanges v) :
    ∃ rng lines z, result (m.acceptor.accept r.best r.current r.candidate)
        ⟨w.own.criterion, rng, lines⟩ = (.ok r.accepted, z) ∧
      v.own.criterion = z.own := by
  rcases h.judged (List.prefix_refl _) with ⟨hp, -⟩ | h
  · have hlen := hp.length_le
    rw [Round.exchanges_eq_question] at hlen
    simp at hlen
  · exact h

end Criterion

/-! ## 2. All rounds -/

section Welcome

variable [Field K] [LinearOrder K] [IsStrictOrderedRing K] [Elementary K] [Solution K X]
variable {m : Methods K X σ (Criterion K) τ} {coupling : Coupling} {clock : Nat → Int}
  {p q : Progress K X} {w v u : Setting K (Parts X ω σ (Criterion K) τ)} {r : Round X}
  {rounds : List (Round X)} {tail : List (Exchange X)} {broken? : Option (Call X)}
  {res : Except (Fault K) (Option (Progress K X))}

variable (hm : m.acceptor = Criterion.acceptor) (hexp : ∀ x : K, 0 ≤ x → 1 ≤ Elementary.exp x)
include hm hexp

/-- Rounds keep a criterion welcoming, and in none of them it refuses a new best solution. -/
theorem Rounds.welcoming (he : e.onBest? = none) (h : e.Rounds m coupling clock p w rounds q u)
    (hle : objective p.best ≤ objective p.current)
    (hw : w.own.criterion.Welcoming (objective p.best)) :
    (∀ r ∈ rounds, r.Improves → r.accepted = true) ∧
      u.own.criterion.Welcoming (objective q.best) := by
  induction h with
  | nil => exact ⟨by simp, hw⟩
  | @cons p w r v said rounds q u best current lawful performed rest ih =>
    rw [← best] at hle hw
    rw [← current] at hle
    obtain ⟨rng, lines, z, hz, hown⟩ := performed.judged_exchanges
    rw [hm] at hz
    obtain ⟨haccepts, hnext⟩ := Criterion.accept_welcoming hexp hle hw hz
    rw [← hown, ← Round.objective_nextBest (lawful.polished?_eq_none he)] at hnext
    obtain ⟨hrounds, hq⟩ := ih (Round.nextBest_le hle) hnext
    exact ⟨List.forall_mem_cons.2 ⟨haccepts, hrounds⟩, hq⟩

/-- Nor does it in the round that was broken off, if it was asked there. -/
theorem Cut.welcoming {answered : List (Exchange X)} {call : Call X} {f : Fault K}
    (h : e.Cut m coupling clock p w r answered call f v)
    (hle : objective p.best ≤ objective p.current)
    (hw : w.own.criterion.Welcoming (objective p.best)) (hmem : r.question ∈ answered)
    (himp : r.Improves) : r.accepted = true := by
  obtain ⟨z, hperf, -⟩ := h.interrupted.broken
  rcases hperf.judged h.interrupted.scripted with ⟨hp, -⟩ | ⟨rng, lines, z, hz, -⟩
  · exact absurd (hp.subset hmem) (by simp [Round.question, Round.proposing])
  · rw [← h.best] at hle hw
    rw [← h.current] at hle
    rw [hm] at hz
    exact (Criterion.accept_welcoming hexp hle hw hz).1 himp

omit hexp in
/-- Rounds count the answers of annealing. -/
theorem Rounds.counts (h : e.Rounds m coupling clock p w rounds q u) {c : SimulatedAnnealing K}
    (hc : w.own.criterion = .simulatedAnnealing c) :
    ∃ c', u.own.criterion = .simulatedAnnealing c' ∧
      c'.accepted = c.accepted + rounds.countP (fun r => r.accepted) ∧
      c'.rejected = c.rejected + rounds.countP (fun r => !r.accepted) := by
  induction h generalizing c with
  | nil => exact ⟨c, hc, rfl, rfl⟩
  | @cons p w r v said rounds q u best current lawful performed rest ih =>
    obtain ⟨rng, lines, z, hz, hown⟩ := performed.judged_exchanges
    rw [hm, hc] at hz
    obtain ⟨c₁, hc₁, hyes, hno⟩ := Criterion.accept_counts hz
    obtain ⟨c', hc', hyes', hno'⟩ := ih (hown.trans hc₁)
    refine ⟨c', hc', ?_, ?_⟩
    · rw [hyes', hyes, List.countP_cons]
      omega
    · rw [hno', hno, List.countP_cons]
      omega

end Welcome

/-! ## 3. Whole runs -/

/-- A question in a round is the question of the round. -/
theorem eq_question_of_mem [Solution K X] [LT K] [DecidableLT K] {r : Round X} {b c y : X}
    {a : Bool} (h : ⟨.accept b c y, .verdict a⟩ ∈ r.exchanges) :
    (⟨.accept b c y, .verdict a⟩ : Exchange X) = r.question := by
  rw [Round.exchanges_eq_question] at h
  cases hz : r.polished? <;>
    simpa [Round.proposing, Round.concluding, Round.polishing, Round.question, hz] using h

/-- A run that is not broken off leaves its criterion as its rounds did. -/
theorem Ends.criterion_eq [Solution K X] [LT K] [DecidableLT K] {m : Methods K X σ α τ}
    {coupling : Coupling} {clock : Nat → Int} {q : Progress K X}
    {u v : Setting K (Parts X ω σ α τ)} {tail : List (Exchange X)} {broken? : Option (Call X)}
    {p? : Option (Progress K X)} (h : e.Ends m coupling clock q u tail broken? (.ok p?) v) :
    v.own.criterion = u.own.criterion := by
  cases h with
  | stopped asked => exact asked.keeps (keeps_criterion (by simp))
  | exhausted => rfl

/-- **A new best solution is never refused.**  In a run without a callback that begins with a new
criterion of the library, and at a positive objective if that is a great deluge, the criterion
says yes to every candidate that is better than the best solution.  So the counters of annealing
are the numbers of outcomes that are no rejection and of those that are. -/
theorem new_best_accepted [Field K] [LinearOrder K] [IsStrictOrderedRing K] [Elementary K]
    [Solution K X] {m : Methods K X σ (Criterion K) τ} {coupling : Coupling}
    {clock : Nat → Int} {w v : Setting K (Parts X ω σ (Criterion K) τ)} {fuel : Nat}
    {initial? : Option X} {initial : X} {res : Except (Fault K) (Option (Progress K X))}
    (hexp : ∀ x : K, 0 ≤ x → 1 ≤ Elementary.exp x) (hm : m.acceptor = Criterion.acceptor)
    (he : e.onBest? = none) (hfresh : w.own.criterion.Fresh)
    (hdeluge : ∀ d, w.own.criterion = .greatDeluge d → 0 < objective initial)
    (ready : e.prepare (m.selector.coupling w.own.scheme) initial? = .ok (initial, coupling))
    (h : result (e.run m clock fuel initial?) w = (res, v)) :
    ∃ rounds tail broken?, e.Account m coupling clock initial w rounds tail broken? res v ∧
      (∀ b c y a, ⟨.accept b c y, .verdict a⟩ ∈ rounds.flatMap Round.exchanges ++ tail →
        objective y < objective b → a = true) ∧
      (∀ r ∈ rounds, r.outcome = .best → r.accepted = true) ∧
      ∀ c p?, w.own.criterion = .simulatedAnnealing c → res = .ok p? →
        ∃ c', v.own.criterion = .simulatedAnnealing c' ∧
          c'.accepted = rounds.countP (fun r => r.outcome ≠ .reject) ∧
          c'.rejected = rounds.countP (fun r => r.outcome = .reject) := by
  obtain ⟨rounds, tail, broken?, haccount, -⟩ := exists_account ready h
  obtain ⟨said, q, u, hrounds, hends⟩ := haccount.course
  have hw : (w.saying said).own.criterion.Welcoming (objective initial) :=
    Criterion.welcoming_of_fresh hfresh hdeluge
  obtain ⟨hall, hq⟩ := hrounds.welcoming hm hexp he (le_refl _) hw
  obtain ⟨-, hle⟩ := hrounds.best_le_current (le_refl _)
  refine ⟨rounds, tail, broken?, haccount, ?_, ?_, ?_⟩
  · intro b c y a hmem himp
    rcases List.mem_append.1 hmem with hmem | hmem
    · obtain ⟨r, hr, hmem⟩ := List.mem_flatMap.1 hmem
      cases eq_question_of_mem hmem
      exact hall r hr himp
    · cases hends with
      | stopped asked => exact absurd hmem (by simp)
      | exhausted => exact absurd hmem (by simp)
      | failed cut =>
        cases eq_question_of_mem (cut.interrupted.scripted.subset hmem)
        exact cut.welcoming hm hexp hle hq hmem himp
  · intro r hr hbest
    exact hall r hr (Round.outcome_eq_best_iff.1 hbest)
  · rintro c p? hc rfl
    have hc' : (w.saying said).own.criterion = .simulatedAnnealing c := hc
    obtain ⟨c', hcrit, hyes, hno⟩ := hrounds.counts hm hc'
    rw [hc] at hfresh
    obtain ⟨hzero, hzero'⟩ := Criterion.counters_of_fresh hfresh
    rw [hzero, Nat.zero_add] at hyes
    rw [hzero', Nat.zero_add] at hno
    have hreject : ∀ r ∈ rounds, r.outcome = .reject ↔ r.accepted = false := fun r hr =>
      Round.outcome_eq_reject_iff (hall r hr)
    refine ⟨c', hends.criterion_eq.trans hcrit, ?_, ?_⟩
    · rw [hyes]
      refine List.countP_congr fun r hr => ?_
      simp [hreject r hr]
    · rw [hno]
      refine List.countP_congr fun r hr => ?_
      simp [hreject r hr]

end Engine

/-- The real numbers with the functions of analysis. -/
noncomputable instance : Elementary ℝ where
  exp := Real.exp
  log := Real.log
  sqrt := Real.sqrt
  pow := (· ^ ·)

namespace Countdown

/-- Annealing from temperature two down to one. -/
noncomputable def annealing : SimulatedAnnealing ℝ where
  start := 2
  finish := 1
  step := 1
  method := .linear
  verbose := false
  temperature := 2
  probability := 0

theorem fresh_annealing : (Criterion.simulatedAnnealing annealing).Fresh := by
  have made : SimulatedAnnealing.make (2 : ℝ) 1 1 .linear false = .ok annealing := by
    simp only [SimulatedAnnealing.make, Checks.guard_ok_iff, Checks.pure_ok_iff]
    refine ⟨by norm_num, by norm_num, by simp [Schedule.refusesStep], rfl⟩
  exact .simulatedAnnealing made

theorem judges_criterion {K : Type} [Scalar K] [Elementary K] :
    Judges (Criterion.acceptor : Acceptor K (Level K) _)
      fun c => ∀ d, c ≠ .nonLinearGreatDeluge d :=
  fun _ _ _ _ hw => Criterion.exists_accept _ _ _ hw

/-- What comes of counting down from two with annealing, and the setting it leaves. -/
noncomputable def annealed : Except (Fault ℝ) (Option (Progress ℝ (Level ℝ))) ×
    Setting ℝ (Parts (Level ℝ) Unit Unit (Criterion ℝ) Unit) :=
  result (engine.run (methods firstPair Criterion.acceptor 1) (fun n => (n : Int)) 3 (some ⟨2⟩))
    (setting () (.simulatedAnnealing annealing))

end Countdown

open Countdown in
/-- Annealing takes the two new best levels of a countdown from two, and counts them. -/
theorem new_best_accepted_annealing :
    ∃ rounds tail broken? c',
      engine.Account (methods firstPair Criterion.acceptor 1) permitted
          (fun n => (n : Int)) ⟨2⟩ (setting () (.simulatedAnnealing annealing)) rounds
          tail broken? annealed.1 annealed.2 ∧
        rounds.length = 2 ∧ (∃ p, annealed.1 = .ok (some p) ∧ p.best = ⟨0⟩) ∧
        (∀ r ∈ rounds, r.outcome = .best → r.accepted = true) ∧
        annealed.2.own.criterion = .simulatedAnnealing c' ∧
        c'.accepted = rounds.countP (fun r => r.outcome ≠ .reject) := by
  obtain ⟨p, v, hrun, hlow, -, hcount⟩ := run_from_two (K := ℝ)
    (w := setting () (.simulatedAnnealing annealing)) supplies_firstPair judges_criterion
    True.intro fun _ => nofun
  have hannealed : annealed = (.ok (some p), v) := hrun
  obtain ⟨rounds, tail, broken?, haccount, -, hbest, hcounts⟩ :=
    Engine.new_best_accepted (fun _ h => Real.one_le_exp h) rfl rfl fresh_annealing
      (fun d hd => by cases hd) (prepare_countdown (⟨2⟩ : Level ℝ)) hrun
  obtain ⟨c', hc', hyes, -⟩ := hcounts annealing _ rfl rfl
  rw [hannealed]
  exact ⟨rounds, tail, broken?, c', haccount, haccount.iterations_eq.symm.trans hcount,
    ⟨p, rfl, hlow⟩, hbest, hc', hyes⟩

end LargeNeighbourhood
