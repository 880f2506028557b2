/-
# How long a run goes on

A run asks its rule before every round, and goes through the round if the rule says no.  So what
holds of a rule at the start, and goes on to hold as long as it says no, holds wherever the run
stands (`Engine.Rounds.refused`), and where it was stopped the rule said yes.  With what is known of
single questions to a rule this gives the number of rounds of a run that was stopped: the span of a
tree of iteration limits, and at most what an iteration limit counts to that stands right below a
root that stops with any of its children.  With a stagnation limit it gives the shape of the
outcomes (`Stagnates`).

That the run is stopped takes more: no call may break it off (`Engine.Unbroken`).  This is so if the
scheme is one of the library and the others never fail (`Engine.unbroken_of_total`).
-/
import Mathlib
import LargeNeighbourhood.Proofs.Search.Ledger
import LargeNeighbourhood.Proofs.Stopping.Span

namespace LargeNeighbourhood

open Act

/-! ## 1. Outcomes in a row -/

/-- How many outcomes there are since the last new best solution. -/
def idle (outcomes : List Outcome) : Nat :=
  outcomes.foldl (fun n o => if o = .best then 0 else n + 1) 0

theorem idle_snoc (outcomes : List Outcome) (o : Outcome) :
    idle (outcomes ++ [o]) = if o = .best then 0 else idle outcomes + 1 := by
  rw [idle, List.foldl_append]
  rfl

theorem idle_append {outcomes more : List Outcome} (h : .best ∉ more) :
    idle (outcomes ++ more) = idle outcomes + more.length := by
  induction more using List.reverseRecOn with
  | nil => rw [List.append_nil, List.length_nil, Nat.add_zero]
  | append_singleton more o ih =>
    rw [List.mem_append, not_or, List.mem_singleton] at h
    obtain ⟨hmore, ho⟩ := h
    rw [← List.append_assoc, idle_snoc, if_neg (Ne.symm ho), ih hmore, List.length_append]
    rfl

/-- The outcomes since the last new best solution stand at the end. -/
theorem exists_idle (outcomes : List Outcome) :
    ∃ before last, outcomes = before ++ last ∧ last.length = idle outcomes ∧ .best ∉ last ∧
      ∀ o, before.getLast? = some o → o = .best := by
  induction outcomes using List.reverseRecOn with
  | nil => exact ⟨[], [], rfl, rfl, by simp, by simp⟩
  | append_singleton outcomes o ih =>
    rw [idle_snoc]
    by_cases ho : o = .best
    · refine ⟨outcomes ++ [o], [], by simp, by simp [ho], by simp, ?_⟩
      intro o' ho'
      rw [List.getLast?_concat, Option.some.injEq] at ho'
      rw [← ho', ho]
    · obtain ⟨before, last, rfl, hlength, hlast, hbefore⟩ := ih
      refine ⟨before, last ++ [o], by simp, ?_, ?_, hbefore⟩
      · rw [if_neg ho, ← hlength, List.length_append]
        rfl
      · simpa [hlast] using Ne.symm ho

/-- There were never `n` outcomes in a row without a new best solution before the last outcome. -/
def Lively (n : Nat) (outcomes : List Outcome) : Prop :=
  ∀ before, before <+: outcomes → before ≠ outcomes → idle before < n

theorem Lively.nil (n : Nat) : Lively n [] := by
  intro before h hne
  exact absurd (List.prefix_nil.1 h) hne

theorem Lively.snoc {n : Nat} {outcomes : List Outcome} (h : Lively n outcomes)
    (hidle : idle outcomes < n) (o : Outcome) : Lively n (outcomes ++ [o]) := by
  intro before hbefore hne
  rcases List.prefix_concat_iff.1 hbefore with heq | hprefix
  · exact absurd heq hne
  · by_cases heq : before = outcomes
    · rw [heq]
      exact hidle
    · exact h before hprefix heq

/-- None in a row is as good as none at all. -/
theorem Lively.eq_nil {outcomes : List Outcome} (h : Lively 0 outcomes) : outcomes = [] := by
  by_contra hne
  exact absurd (h [] List.nil_prefix (Ne.symm hne)) (Nat.not_lt_zero _)

/-- The outcomes end with `n` that are no new best solutions, right after one that is, if there are
any before them, and they have no `n` in a row of that kind before the end. -/
structure Stagnates (n : Nat) (outcomes : List Outcome) : Prop where
  last : ∃ before last, outcomes = before ++ last ∧ last.length = n ∧ .best ∉ last ∧
    ∀ o, before.getLast? = some o → o = .best
  earlier : ∀ before window after, outcomes = before ++ window ++ after → window.length = n →
    after ≠ [] → .best ∈ window

/-- Outcomes that reach `n` in a row for the first time stagnate. -/
theorem Lively.stagnates {n : Nat} {outcomes : List Outcome} (h : Lively n outcomes)
    (hn : 0 < n) (hidle : n ≤ idle outcomes) : Stagnates n outcomes where
  last := by
    have hexact : idle outcomes = n := by
      rcases List.eq_nil_or_concat' outcomes with rfl | ⟨init, o, rfl⟩
      · exact absurd (Nat.lt_of_lt_of_le hn hidle) (Nat.lt_irrefl 0)
      · have hinit : idle init < n := h init (List.prefix_append ..) (by simp)
        rw [idle_snoc] at hidle ⊢
        split at hidle
        · omega
        · rw [if_neg ‹_›]
          omega
    obtain ⟨before, last, hsplit, hlength, hlast, hbefore⟩ := exists_idle outcomes
    exact ⟨before, last, hsplit, hlength.trans hexact, hlast, hbefore⟩
  earlier := by
    intro before window after hsplit hlength hafter
    by_contra hwindow
    have hlt : idle (before ++ window) < n := by
      refine h _ ⟨after, hsplit.symm⟩ fun heq => hafter ?_
      rw [← heq] at hsplit
      simpa using hsplit
    rw [idle_append hwindow] at hlt
    omega

/-! ## 2. The rule in a run -/

namespace Engine

section Rule

variable {K X ω σ α L : Type} [Solution K X]
variable {e : Engine K X ω} {m : Methods K X σ α (Stopping L)} {coupling : Coupling}
  {clock : Nat → Int} {now : Int} {query : Int → K → L → Bool × L}
  {w v u : Setting K (Parts X ω σ α (Stopping L))}

/-- What an answer to the question whether to stop says of the rule. -/
theorem Exchanged.stop_eq (hm : m.stopper = Stopping.stopper query) {best current : X} {yes : Bool}
    (h : e.Exchanged m now w ⟨.shouldStop best current, .verdict yes⟩ v) :
    w.own.stop.ask (query now (objective best)) = (yes, v.own.stop) := by
  obtain ⟨said, h⟩ := h
  rw [callee, hm] at h
  obtain ⟨answer, z, hanswer, hz, hown⟩ := map_on_ok h
  cases hanswer
  rw [Stopping.result_ask, Prod.mk.injEq, Except.ok.injEq] at hz
  obtain ⟨hyes, rfl⟩ := hz
  refine Prod.ext hyes ?_
  rw [hown]
  rfl

variable [LT K] [DecidableLT K] {p q : Progress K X} {r : Round X} {rounds : List (Round X)}

/-- In a round the rule is asked once, and says no. -/
theorem Performs.stop_eq (hm : m.stopper = Stopping.stopper query)
    (h : e.Performs m now w r.exchanges v) :
    w.own.stop.ask (query now (objective r.best)) = (false, v.own.stop) := by
  have hkeeps : ∀ x ∈ r.exchanges.tail,
      x.call.Keeps (Parts.stop : Parts X ω σ α (Stopping L) → Stopping L) := by
    cases hz : r.polished? <;> simp [Round.exchanges, Round.polishing, hz, keeps_stop]
  have hsplit : r.exchanges
      = ⟨.shouldStop r.best r.current, .verdict false⟩ :: r.exchanges.tail := rfl
  rw [hsplit] at h
  cases h with
  | cons head tail =>
    rw [tail.keeps (fun _ _ => rfl) hkeeps]
    exact head.stop_eq hm

/-- **What holds as long as the rule says no holds wherever a run stands.** -/
theorem Rounds.refused (hm : m.stopper = Stopping.stopper query)
    (Holds : List Outcome → X → Stopping L → Prop)
    (step : ∀ r : Round X, r.Lawful e coupling → ∀ now outcomes s, Holds outcomes r.best s →
      (s.ask (query now (objective r.best))).1 = false →
      Holds (outcomes ++ [r.outcome]) r.nextBest (s.ask (query now (objective r.best))).2)
    (h : e.Rounds m coupling clock p w rounds q u) (outcomes : List Outcome)
    (hw : Holds outcomes p.best w.own.stop) :
    Holds (outcomes ++ rounds.map Round.outcome) q.best u.own.stop := by
  induction h generalizing outcomes with
  | nil =>
    rw [List.map_nil, List.append_nil]
    exact hw
  | @cons p w r v said rounds q u best current lawful performed rest ih =>
    have hasked := performed.stop_eq hm
    have hstep := step r lawful (clock (2 * p.statistics.iterations + 1)) outcomes w.own.stop
      (best ▸ hw) (by rw [hasked])
    rw [hasked] at hstep
    have hrest := ih _ hstep
    rw [List.append_assoc] at hrest
    exact hrest

end Rule

/-! ## 3. Rounds and rules -/

section Rules

variable {K X ω σ α L : Type} [Scalar K] [Solution K X]
variable {e : Engine K X ω} {coupling : Coupling} {clock : Nat → Int} {n : Nat}
  {p q : Progress K X} {rounds : List (Round X)}

/-- A tree of iteration limits lets no more rounds pass than its span. -/
theorem Rounds.spanned {m : Methods K X σ α (Stopping (Limit K))}
    {w u : Setting K (Parts X ω σ α (Stopping (Limit K)))}
    (hm : m.stopper = Stopping.stopper Limit.ask)
    (h : e.Rounds m coupling clock p w rounds q u) (hw : w.own.stop.root.span? 0 = some n) :
    rounds.length ≤ n ∧ u.own.stop.root.span? rounds.length = some n := by
  have hholds := h.refused hm (fun outcomes _ s =>
    outcomes.length ≤ n ∧ s.root.span? outcomes.length = some n) ?_ [] ⟨Nat.zero_le n, hw⟩
  · simpa using hholds
  · intro r _ now outcomes s hs hno
    obtain ⟨hanswer, hnext⟩ := Stopping.ask_span hs.2 now (objective r.best)
    rw [hanswer, decide_eq_false_iff_not] at hno
    rw [List.length_append, List.length_singleton]
    exact ⟨by omega, hnext⟩

/-- An iteration limit below a root that stops with any of its children lets no more rounds pass
than it counts to. -/
theorem Rounds.counting {query : Int → K → L → Bool × L} {count : IterationLimit → L}
    (hcount : ∀ now best c, query now best (count c) = (c.ask.1, count c.ask.2))
    {m : Methods K X σ α (Stopping L)} {w u : Setting K (Parts X ω σ α (Stopping L))}
    (hm : m.stopper = Stopping.stopper query) (h : e.Rounds m coupling clock p w rounds q u)
    (hw : w.own.stop.Counting count n 0) : rounds.length ≤ n := by
  have hholds := h.refused hm (fun outcomes _ s =>
    outcomes.length ≤ n ∧ s.Counting count n outcomes.length) ?_ [] ⟨Nat.zero_le n, hw⟩
  · simpa using hholds.1
  · intro r _ now outcomes s hs hno
    obtain ⟨hanswer, hnext⟩ := hs.2.ask (hcount now (objective r.best))
    rw [List.length_append, List.length_singleton]
    refine ⟨?_, hnext⟩
    by_contra hlt
    rw [hanswer (by omega)] at hno
    exact absurd hno (by simp)

/-- A stagnation limit counts the outcomes since the last new best solution. -/
theorem Rounds.stagnating [Std.Irrefl (· < · : K → K → Prop)]
    {m : Methods K X σ α (Stopping (Limit K))}
    {w u : Setting K (Parts X ω σ α (Stopping (Limit K)))}
    (hm : m.stopper = Stopping.stopper Limit.ask) (he : e.onBest? = none)
    (h : e.Rounds m coupling clock p w rounds q u)
    (hw : w.own.stop.root = .limit (.stagnation ⟨n, 0, none⟩)) :
    Lively n (rounds.map Round.outcome) ∧ ∃ c, u.own.stop.root = .limit (.stagnation c) ∧
      c.observe (objective q.best)
        = ⟨n, idle (rounds.map Round.outcome), some (objective q.best)⟩ := by
  refine h.refused hm (fun outcomes best s =>
    Lively n outcomes ∧ ∃ c, s.root = .limit (.stagnation c) ∧
      c.observe (objective best) = ⟨n, idle outcomes, some (objective best)⟩) ?_ []
    ⟨Lively.nil n, _, hw, rfl⟩
  rintro r lawful now outcomes s ⟨hlively, c, hroot, hseen⟩ hno
  rw [Stopping.ask_stagnation hroot, hseen] at hno ⊢
  rw [decide_eq_false_iff_not, Nat.not_le] at hno
  refine ⟨hlively.snoc hno r.outcome, _, rfl, ?_⟩
  rw [Round.nextBest_eq (lawful.polished?_eq_none he), idle_snoc]
  -- the next question shows it either a lesser objective or the one it has seen last
  by_cases hi : objective r.candidate < objective r.best
  · rw [if_pos hi, if_pos (Round.outcome_eq_best_iff.2 hi)]
    simp [StagnationLimit.observe, StagnationLimit.improves, hi]
  · rw [if_neg hi, if_neg (mt Round.outcome_eq_best_iff.1 hi)]
    simp [StagnationLimit.observe, StagnationLimit.improves, irrefl_of (· < ·) (objective r.best)]

/-- A run that a tree of iteration limits stopped went through as many iterations as its span. -/
theorem iterations_eq_span {m : Methods K X σ α (Stopping (Limit K))} {initial? : Option X}
    {w v : Setting K (Parts X ω σ α (Stopping (Limit K)))}
    (hm : m.stopper = Stopping.stopper Limit.ask) (hspan : w.own.stop.root.span? 0 = some n)
    {fuel : Nat} (h : result (e.run m clock fuel initial?) w = (.ok (some p), v)) :
    p.statistics.iterations = n := by
  obtain ⟨initial, coupling, rounds, tail, haccount⟩ := exists_account_of_stopped h
  obtain ⟨said, u, z, -, hrounds, hasked⟩ := haccount.stopped
  obtain ⟨hle, hspan'⟩ := hrounds.spanned hm hspan
  obtain ⟨hanswer, -⟩ := Stopping.ask_span hspan'
    (clock (2 * p.statistics.iterations + 1)) (objective p.best)
  rw [hasked.stop_eq hm] at hanswer
  have hlt := of_decide_eq_true hanswer.symm
  rw [hrounds.iterations_eq]
  omega

end Rules

/-! ## 4. Runs that are stopped -/

section Stopped

variable {K X ω σ α τ : Type} [Solution K X] [LT K] [DecidableLT K]

/-- However much fuel it is given, no run from here is broken off: whatever the operators, the
callback, the scheme, the criterion and the rule are asked, they answer, and the search can use the
answer. -/
def Unbroken (e : Engine K X ω) (m : Methods K X σ α τ) (clock : Nat → Int)
    (initial? : Option X) (w : Setting K (Parts X ω σ α τ)) : Prop :=
  ∀ fuel f v, result (e.run m clock fuel initial?) w ≠ (.error f, v)

/-- Any run from here is stopped that is given more fuel than `n`. -/
def StopsBy (e : Engine K X ω) (m : Methods K X σ α τ) (clock : Nat → Int) (initial? : Option X)
    (w : Setting K (Parts X ω σ α τ)) (n : Nat) : Prop :=
  ∀ fuel, n < fuel → ∃ p v, result (e.run m clock fuel initial?) w = (.ok (some p), v)

variable {e : Engine K X ω} {m : Methods K X σ α τ} {clock : Nat → Int} {initial? : Option X}
  {w : Setting K (Parts X ω σ α τ)}

/-- Runs that are not broken off, and whose rounds are bounded, are stopped. -/
theorem Unbroken.stopsBy {n : Nat} (h : e.Unbroken m clock initial? w)
    (hbound : ∀ {initial coupling said rounds q u},
      e.Rounds m coupling clock (opening (clock 0) initial) (w.saying said) rounds q u →
      rounds.length ≤ n) : e.StopsBy m clock initial? w n := by
  intro fuel hfuel
  rcases hp : e.prepare (m.selector.coupling w.own.scheme) initial? (K := K) with
    f | ⟨initial, coupling⟩
  · exact absurd (run_refused fuel hp) (h fuel f w)
  rcases hrun : result (e.run m clock fuel initial?) w with ⟨f | p?, v⟩
  · exact absurd hrun (h fuel f v)
  obtain ⟨rounds, tail, broken?, haccount, hexhausted⟩ := exists_account hp hrun
  obtain ⟨said, q, u, hrounds, -⟩ := haccount.course
  have hle := hbound hrounds
  cases p? with
  | none =>
    have heq := hexhausted rfl
    omega
  | some p => exact ⟨p, v, rfl⟩

/-- The rule, the criterion, the operators and the callback never fail, and the operators and the
callback always make a solution. -/
structure Total (e : Engine K X ω) (m : Methods K X σ α τ) : Prop where
  rule : ∀ now best current w, ∃ yes v,
    result (m.stopper.ask now best current) w = (.ok yes, v)
  criterion : ∀ best current candidate w, ∃ yes v,
    result (m.acceptor.accept best current candidate) w = (.ok yes, v)
  destroy : ∀ op ∈ e.destroy.entries, ∀ x w, ∃ y v, result (op.item x) w = (.ok (some y), v)
  repair : ∀ op ∈ e.repair.entries, ∀ x w, ∃ y v, result (op.item x) w = (.ok (some y), v)
  onBest : ∀ op, e.onBest? = some op → ∀ x w, ∃ y v, result (op x) w = (.ok (some y), v)

omit [Solution K X] [LT K] [DecidableLT K] in
/-- Such others have no fault. -/
theorem Total.not_foreign (h : e.Total m) {now : Int} {call : Call X} {f : Fault K} :
    ¬e.Foreign m now w call f := by
  intro hforeign
  cases hforeign with
  | rule failed =>
    obtain ⟨yes, v, hok⟩ := h.rule _ _ _ _
    exact absurd (hok.symm.trans failed) (by simp)
  | criterion failed =>
    obtain ⟨yes, v, hok⟩ := h.criterion _ _ _ _
    exact absurd (hok.symm.trans failed) (by simp)
  | destroy registered failed =>
    obtain ⟨y, v, hok⟩ := h.destroy _ (List.mem_of_getElem? registered) _ _
    exact absurd (hok.symm.trans failed) (by simp)
  | repair registered failed =>
    obtain ⟨y, v, hok⟩ := h.repair _ (List.mem_of_getElem? registered) _ _
    exact absurd (hok.symm.trans failed) (by simp)
  | onBest set failed =>
    obtain ⟨y, v, hok⟩ := h.onBest _ set _ _
    exact absurd (hok.symm.trans failed) (by simp)
  | noDestroyed registered answered =>
    obtain ⟨y, v, hok⟩ := h.destroy _ (List.mem_of_getElem? registered) _ _
    exact absurd (hok.symm.trans answered) (by simp)
  | noRepaired registered answered =>
    obtain ⟨y, v, hok⟩ := h.repair _ (List.mem_of_getElem? registered) _ _
    exact absurd (hok.symm.trans answered) (by simp)
  | noPolished set answered =>
    obtain ⟨y, v, hok⟩ := h.onBest _ set _ _
    exact absurd (hok.symm.trans answered) (by simp)

end Stopped

/-- **Schemes of the library do not break runs off.** -/
theorem unbroken_of_total {K X ω α τ : Type} [Field K] [LinearOrder K] [IsStrictOrderedRing K]
    [Elementary K] [Solution K X] {e : Engine K X ω}
    {m : Methods K X (Scheme K (EpsilonGreedy K)) α τ} {clock : Nat → Int}
    {initial? : Option X} {initial : X} {coupling : Coupling}
    {w : Setting K (Parts X ω (Scheme K (EpsilonGreedy K)) α τ)}
    (hm : m.selector = Scheme.selector EpsilonGreedy.policy)
    (hw : Scheme.Reachable X w.own.scheme)
    (ready : e.prepare w.own.scheme.coupling initial? = .ok (initial, coupling))
    (h : e.Total m) : e.Unbroken m clock initial? w := by
  intro fuel f v hrun
  have hready : e.prepare (m.selector.coupling w.own.scheme) initial?
      = .ok (initial, coupling) := by
    rw [hm]
    exact ready
  obtain ⟨rounds, tail, broken?, haccount, -⟩ := exists_account hready hrun
  obtain ⟨hturning, husable⟩ := hw.turning
  obtain ⟨said, q, u, call, z, -, -, -, hforeign⟩ :=
    haccount.blamesOthers hm ⟨hturning, rfl, husable⟩ (ready_of_prepare ready).2
  exact h.not_foreign hforeign

/-! ## 5. Exact lengths -/

/-- **How long a run goes on.**  A run that a tree of iteration limits stopped went through as many
iterations as the tree's span, and one with an iteration limit below a root that stops with any of
its children, whatever these are, through no more than that limit counts to.  Both are stopped if no
call breaks them off.  Without a callback the outcomes of a run that a stagnation limit stopped
stagnate after as many as it counts to, and if it counts to none there was no iteration. -/
theorem exact_run_length {K X ω σ α : Type} [Scalar K] [Solution K X] {e : Engine K X ω}
    {clock : Nat → Int} {initial? : Option X} {n : Nat} :
    (∀ {m : Methods K X σ α (Stopping (Limit K))}
      {w : Setting K (Parts X ω σ α (Stopping (Limit K)))},
      m.stopper = Stopping.stopper Limit.ask → w.own.stop.root.span? 0 = some n →
      (∀ {fuel p v}, result (e.run m clock fuel initial?) w = (.ok (some p), v) →
        p.statistics.iterations = n) ∧
      (e.Unbroken m clock initial? w → e.StopsBy m clock initial? w n)) ∧
    (∀ {L : Type} (query : Int → K → L → Bool × L) (count : IterationLimit → L),
      (∀ now best c, query now best (count c) = (c.ask.1, count c.ask.2)) →
      ∀ {m : Methods K X σ α (Stopping L)} {w : Setting K (Parts X ω σ α (Stopping L))} {rules},
      m.stopper = Stopping.stopper query → w.own.stop.root = .anyOf rules →
      .limit (count ⟨n, 0⟩) ∈ rules →
      (∀ {fuel p v}, result (e.run m clock fuel initial?) w = (.ok (some p), v) →
        p.statistics.iterations ≤ n) ∧
      (e.Unbroken m clock initial? w → e.StopsBy m clock initial? w n)) ∧
    ∀ [Std.Irrefl (· < · : K → K → Prop)] {m : Methods K X σ α (Stopping (Limit K))}
      {w : Setting K (Parts X ω σ α (Stopping (Limit K)))},
      m.stopper = Stopping.stopper Limit.ask → e.onBest? = none →
      w.own.stop.root = .limit (.stagnation ⟨n, 0, none⟩) →
      (∀ {fuel p v}, result (e.run m clock fuel initial?) w = (.ok (some p), v) →
        ∃ initial coupling rounds tail,
          e.Account m coupling clock initial w rounds tail none (.ok (some p)) v ∧
          p.statistics.iterations = rounds.length ∧
          (0 < n → Stagnates n (rounds.map Round.outcome)) ∧
          (n = 0 → p.statistics.iterations = 0)) ∧
      (n = 0 → e.Unbroken m clock initial? w → e.StopsBy m clock initial? w 0) := by
  refine ⟨?_, ?_, ?_⟩
  · intro m w hm hspan
    exact ⟨fun hrun => iterations_eq_span hm hspan hrun,
      fun hunbroken => hunbroken.stopsBy fun hrounds => (hrounds.spanned hm hspan).1⟩
  · intro L query count hcount m w rules hm hroot hmem
    have hbound : ∀ {initial coupling said rounds q u},
        e.Rounds m coupling clock (opening (clock 0) initial) (w.saying said) rounds q u →
        rounds.length ≤ n :=
      fun hrounds => hrounds.counting hcount hm ⟨rules, hroot, hmem⟩
    refine ⟨?_, fun hunbroken => hunbroken.stopsBy hbound⟩
    intro fuel p v hrun
    obtain ⟨initial, coupling, rounds, tail, haccount⟩ := exists_account_of_stopped hrun
    obtain ⟨said, u, z, -, hrounds, -⟩ := haccount.stopped
    rw [haccount.iterations_eq]
    exact hbound hrounds
  · intro _ m w hm he hroot
    constructor
    · intro fuel p v hrun
      obtain ⟨initial, coupling, rounds, tail, haccount⟩ := exists_account_of_stopped hrun
      obtain ⟨said, u, z, -, hrounds, hasked⟩ := haccount.stopped
      obtain ⟨hlively, c, hc, hseen⟩ := hrounds.stagnating hm he hroot
      have hanswer := hasked.stop_eq hm
      rw [Stopping.ask_stagnation hc, hseen, Prod.mk.injEq, decide_eq_true_iff] at hanswer
      refine ⟨initial, coupling, rounds, tail, haccount, hrounds.iterations_eq,
        fun hn => hlively.stagnates hn hanswer.1, ?_⟩
      rintro rfl
      rw [hrounds.iterations_eq, List.map_eq_nil_iff.1 hlively.eq_nil]
      rfl
    · rintro rfl hunbroken
      refine hunbroken.stopsBy fun hrounds => ?_
      rw [List.map_eq_nil_iff.1 (hrounds.stagnating hm he hroot).1.eq_nil]
      exact Nat.le_refl 0

end Engine

namespace Countdown

variable {K σ α : Type} [Scalar K]

/-- A scheme, a criterion, and a rule of the library. -/
def ruled (selector : Selector K (Level K) σ) (acceptor : Acceptor K (Level K) α) :
    Methods K (Level K) σ α (Stopping (Limit K)) where
  selector := selector
  acceptor := acceptor
  stopper := Stopping.stopper Limit.ask

/-- The search before its run, with the root of its rule. -/
def rooted (scheme : σ) (criterion : α) (root : Rule (Limit K)) :
    Setting K (Parts (Level K) Unit σ α (Stopping (Limit K))) where
  own := { world := (), scheme := scheme, criterion := criterion, stop := { root := root } }
  rng := ⟨0, 1⟩

/-- A search whose second operator makes the zero. -/
def dropping : Engine K (Level K) Unit where
  destroy := { role := "destroy", entries := [⟨"keep", keep⟩] }
  repair := { role := "repair", entries := [⟨"drop", fun _ => return some ⟨0⟩⟩] }

/-- A scheme that proposes the only pair. -/
def onlyPair : Selector K (Level K) Unit where
  coupling := fun _ => Coupling.all 1 1
  select := fun _ _ => return ⟨0, 0⟩
  update := fun _ _ _ => return ()

theorem prepare_dropping (initial : Level K) :
    (dropping : Engine K (Level K) Unit).prepare (Coupling.all 1 1) (some initial)
      = .ok (initial, Coupling.all 1 1) := by
  with_unfolding_all rfl

/-- The operators of the search always make a solution. -/
theorem total_engine (selector : Selector K (Level K) σ) :
    (engine : Engine K (Level K) Unit).Total (ruled selector everyLevel) where
  rule := fun _ _ _ _ => ⟨_, _, rfl⟩
  criterion := fun _ _ _ _ => ⟨_, _, rfl⟩
  destroy := by
    intro op hop x w
    rw [item_of_mem_destroy hop]
    exact ⟨_, _, rfl⟩
  repair := by
    intro op hop x w
    rw [item_of_mem_repair hop]
    exact ⟨_, _, rfl⟩
  onBest := fun _ hop => absurd hop (by simp [engine])

/-- A countdown with the wheel is not broken off. -/
theorem unbroken_wheel (root : Rule (Limit ℝ)) :
    (engine : Engine ℝ (Level ℝ) Unit).Unbroken
      (ruled (Scheme.selector EpsilonGreedy.policy) everyLevel) (fun n => (n : Int)) (some ⟨2⟩)
      (rooted (.roulette wheel) () root) :=
  Engine.unbroken_of_total rfl reachable_wheel (prepare_countdown (⟨2⟩ : Level ℝ))
    (total_engine _)

/-- A tree of iteration limits with the span two. -/
def tree : Rule (Limit K) :=
  .allOf [.limit (.iterations ⟨1, 0⟩),
    .anyOf [.limit (.iterations ⟨2, 0⟩), .limit (.iterations ⟨3, 0⟩)]]

/-- An iteration makes the zero the best solution if that is better. -/
theorem turn_dropping (p : Progress ℝ (Level ℝ))
    (w : Setting ℝ (Parts (Level ℝ) Unit Unit Unit (Stopping (Limit ℝ)))) :
    ∃ t u, result (dropping.turn (ruled onlyPair everyLevel) (Coupling.all 1 1) p) w = (.ok t, u) ∧
      t.best.height = min p.best.height 0 ∧ u.own.stop = w.own.stop := by
  have hlegal : (Coupling.all 1 1).legal? ⟨0, 0⟩ = some (0, 0) := by decide
  have hmin : min p.best.height 0 = if 0 < p.best.height then 0 else p.best.height := by
    split
    · exact min_eq_right (le_of_lt ‹_›)
    · exact min_eq_left (not_lt.1 ‹_›)
  rw [hmin]
  by_cases h : 0 < p.best.height <;>
    simp [Engine.turn, Engine.select, Engine.destroyAt, Engine.repairAt, Engine.evaluate,
      Engine.accepts, Engine.polish, Engine.report, Engine.apply, result_bind, result_on,
      result_map, ruled, Engine.entering, hlegal, dropping, onlyPair, keep, Registry.entry,
      everyLevel, objective, Solution.objective, h, Except.map]

/-- The rule answers for the search. -/
theorem shouldStop_ruled (selector : Selector K (Level K) σ) (acceptor : Acceptor K (Level K) α)
    {now : Int} {p : Progress K (Level K)}
    {w : Setting K (Parts (Level K) Unit σ α (Stopping (Limit K)))} {yes : Bool}
    {s : Stopping (Limit K)} (h : w.own.stop.ask (Limit.ask now p.best.height) = (yes, s)) :
    ∃ v, result (Engine.shouldStop (ruled selector acceptor) now p) w = (.ok yes, v) ∧
      v.own.stop = s :=
  ⟨_, Prod.ext (congrArg Except.ok (congrArg Prod.fst h)) rfl, congrArg Prod.snd h⟩

/-- One iteration of dropping with a stagnation limit that says no. -/
theorem loop_dropping (c next : StagnationLimit ℝ) (p : Progress ℝ (Level ℝ)) (fuel : Nat)
    {w : Setting ℝ (Parts (Level ℝ) Unit Unit Unit (Stopping (Limit ℝ)))}
    (hw : w.own.stop.root = .limit (.stagnation c)) (hnext : c.observe p.best.height = next)
    (hno : next.counter < next.limit) :
    ∃ q u, result (dropping.loop (ruled onlyPair everyLevel) (Coupling.all 1 1)
        (fun n => (n : Int)) (fuel + 1) p) w
          = result (dropping.loop (ruled onlyPair everyLevel) (Coupling.all 1 1)
            (fun n => (n : Int)) fuel q) u ∧
      q.best.height = min p.best.height 0 ∧ u.own.stop.root = .limit (.stagnation next) := by
  obtain ⟨v, hasked, hv⟩ := shouldStop_ruled onlyPair everyLevel
    (Stopping.ask_stagnation hw (2 * p.statistics.iterations + 1) p.best.height)
  rw [hnext, decide_eq_false (Nat.not_le.2 hno)] at hasked
  obtain ⟨t, u, hturn, hbest, hu⟩ := turn_dropping p v
  obtain ⟨said, hloop⟩ := Engine.loop_of_turn (fun n => (n : Int)) fuel hasked hturn
  refine ⟨_, _, hloop, hbest, ?_⟩
  rw [Setting.own_saying, hu, hv, hnext]

/-- Dropping from one to zero stops when nothing improves any more. -/
theorem stops_dropping : ∃ p v,
    result (dropping.run (ruled onlyPair everyLevel) (fun n => (n : Int)) 3 (some ⟨1⟩))
      (rooted () () (.limit (.stagnation ⟨1, 0, none⟩)))
        = (.ok (some p), (v : Setting ℝ (Parts (Level ℝ) Unit Unit Unit _))) := by
  obtain ⟨said, hrun⟩ := Engine.run_eq_loop
    (w := rooted () () (.limit (.stagnation ⟨1, 0, none⟩)))
    (m := ruled onlyPair everyLevel) (fun n => (n : Int)) 3 (prepare_dropping (⟨1⟩ : Level ℝ))
  obtain ⟨p, u, hfirst, hp, hu⟩ := loop_dropping ⟨1, 0, none⟩ ⟨1, 0, some 1⟩
    (Engine.opening (0 : Int) ⟨1⟩) 2
    (w := (rooted () () (.limit (.stagnation ⟨1, 0, none⟩))).saying said) rfl rfl (by decide)
  rw [Engine.opening, min_eq_right one_pos.le] at hp
  obtain ⟨q, v, hsecond, hq, hv⟩ := loop_dropping ⟨1, 0, some 1⟩ ⟨1, 0, some 0⟩ p 1 hu
    (by simp [hp, StagnationLimit.observe, StagnationLimit.improves]) (by decide)
  rw [hp, min_self] at hq
  have hthird : StagnationLimit.observe ⟨1, 0, some 0⟩ q.best.height = ⟨1, 1, some 0⟩ := by
    simp [hq, StagnationLimit.observe, StagnationLimit.improves]
  obtain ⟨z, hasked, -⟩ := shouldStop_ruled onlyPair everyLevel
    (Stopping.ask_stagnation hv (2 * q.statistics.iterations + 1) q.best.height)
  rw [hthird] at hasked
  obtain ⟨last, hstop⟩ :=
    Engine.loop_of_stop dropping (Coupling.all 1 1) (fun n => (n : Int)) 0 hasked
  exact ⟨q, _, hrun.trans (hfirst.trans (hsecond.trans hstop))⟩

end Countdown

open Countdown in
/-- A countdown with the tree makes two iterations, one with an iteration limit next to a stagnation
limit at most two, one with a stagnation limit of none makes none; and dropping from one to zero
with a stagnation limit of one stagnates after one. -/
theorem exact_run_length_countdown :
    (∃ p v, result (engine.run (ruled (Scheme.selector EpsilonGreedy.policy) everyLevel)
        (fun n => (n : Int)) 3 (some ⟨2⟩)) (rooted (.roulette wheel) () tree)
          = (.ok (some p), v) ∧ p.statistics.iterations = 2) ∧
    (∃ p v, result (engine.run (ruled (Scheme.selector EpsilonGreedy.policy) everyLevel)
        (fun n => (n : Int)) 3 (some ⟨2⟩)) (rooted (.roulette wheel) ()
          (.anyOf [.limit (.stagnation ⟨5, 0, none⟩), .limit (.iterations ⟨2, 0⟩)]))
          = (.ok (some p), v) ∧ p.statistics.iterations ≤ 2) ∧
    (∃ p v, result (engine.run (ruled (Scheme.selector EpsilonGreedy.policy) everyLevel)
        (fun n => (n : Int)) 1 (some ⟨2⟩)) (rooted (.roulette wheel) ()
          (.limit (.stagnation ⟨0, 0, none⟩))) = (.ok (some p), v) ∧
          p.statistics.iterations = 0) ∧
    ∃ p v outcomes, result (dropping.run (ruled onlyPair everyLevel) (fun n => (n : Int)) 3
        (some ⟨1⟩)) (rooted () () (.limit (.stagnation ⟨1, 0, none⟩)))
          = (.ok (some p), (v : Setting ℝ (Parts (Level ℝ) Unit Unit Unit _))) ∧
        p.statistics.iterations = outcomes.length ∧ Stagnates 1 outcomes := by
  refine ⟨?_, ?_, ?_, ?_⟩
  · obtain ⟨hiterations, hstops⟩ := (Engine.exact_run_length (e := engine) (n := 2)).1
      (m := ruled (Scheme.selector EpsilonGreedy.policy) everyLevel)
      (w := rooted (.roulette wheel) () tree) rfl rfl
    obtain ⟨p, v, hrun⟩ := hstops (unbroken_wheel _) 3 (by omega)
    exact ⟨p, v, hrun, hiterations hrun⟩
  · obtain ⟨hiterations, hstops⟩ := (Engine.exact_run_length (e := engine) (n := 2)).2.1
      Limit.ask Limit.iterations (fun _ _ _ => rfl)
      (m := ruled (Scheme.selector EpsilonGreedy.policy) everyLevel)
      (w := rooted (.roulette wheel) ()
        (.anyOf [.limit (.stagnation ⟨5, 0, none⟩), .limit (.iterations ⟨2, 0⟩)])) rfl rfl (by simp)
    obtain ⟨p, v, hrun⟩ := hstops (unbroken_wheel _) 3 (by omega)
    exact ⟨p, v, hrun, hiterations hrun⟩
  · obtain ⟨houtcomes, hstops⟩ := (Engine.exact_run_length (e := engine) (n := 0)).2.2
      (m := ruled (Scheme.selector EpsilonGreedy.policy) everyLevel)
      (w := rooted (.roulette wheel) () (.limit (.stagnation ⟨0, 0, none⟩))) rfl rfl rfl
    obtain ⟨p, v, hrun⟩ := hstops rfl (unbroken_wheel _) 1 (by omega)
    obtain ⟨initial, coupling, rounds, tail, -, -, -, hnone⟩ := houtcomes hrun
    exact ⟨p, v, hrun, hnone rfl⟩
  · obtain ⟨p, v, hrun⟩ := stops_dropping
    obtain ⟨houtcomes, -⟩ := (Engine.exact_run_length (K := ℝ) (e := dropping) (n := 1)).2.2
      (m := ruled onlyPair everyLevel)
      (w := rooted () () (.limit (.stagnation ⟨1, 0, none⟩))) rfl rfl rfl
    obtain ⟨initial, coupling, rounds, tail, -, hlength, hstagnates, -⟩ :=
      houtcomes hrun
    refine ⟨p, v, rounds.map Round.outcome, hrun, ?_, hstagnates (by omega)⟩
    rw [hlength, List.length_map]

end LargeNeighbourhood
