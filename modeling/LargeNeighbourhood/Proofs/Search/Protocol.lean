/-
# The protocol of a run

A run that passed the checks goes through lawful rounds and then ends: the rule stops it, the fuel
is used up, or a call breaks off the next round (`run_protocol`).  Nothing is asked of the
operators, the callback, the scheme, the criterion or the rule; each may answer what it likes, and
each may fail.

The journal is what can be seen of it from outside: the calls of the rounds one after another,
then the calls of the end, then the call that failed.
-/
import Mathlib
import LargeNeighbourhood.Proofs.Scalar.Exact
import LargeNeighbourhood.Proofs.Search.Account
import LargeNeighbourhood.Proofs.Search.Ready

namespace LargeNeighbourhood

open Act

namespace Engine

variable {K X ω σ α τ : Type} [Solution K X] [LT K] [DecidableLT K]
variable {e : Engine K X ω} {m : Methods K X σ α τ} {coupling : Coupling} {clock : Nat → Int}
  {p q : Progress K X} {w v u : Setting K (Parts X ω σ α τ)} {rounds : List (Round X)}
  {tail : List (Exchange X)} {broken? : Option (Call X)}
  {res : Except (Fault K) (Option (Progress K X))} {initial? : Option X} {initial : X}

/-! ## 1. The journal -/

theorem Rounds.journal (h : e.Rounds m coupling clock p w rounds q u) :
    u.own.journal.toList
      = w.own.journal.toList ++ (rounds.flatMap Round.exchanges).map Exchange.call := by
  induction h with
  | nil => simp
  | cons best current lawful performed rest ih =>
    rw [Setting.own_saying, performed.journal] at ih
    simp [ih]

theorem Ends.journal (h : e.Ends m coupling clock p w tail broken? res v) :
    v.own.journal.toList
      = w.own.journal.toList ++ tail.map Exchange.call ++ broken?.toList := by
  cases h with
  | stopped asked => simp [asked.journal]
  | exhausted => simp
  | failed cut => exact cut.interrupted.journal

/-! ## 2. The whole run -/

/-- A run from an initial solution, as what it did: the rounds it went through, the calls of its
end that were answered, and the call that broke it off. -/
structure Account (e : Engine K X ω) (m : Methods K X σ α τ) (coupling : Coupling)
    (clock : Nat → Int) (initial : X) (w : Setting K (Parts X ω σ α τ)) (rounds : List (Round X))
    (tail : List (Exchange X)) (broken? : Option (Call X))
    (res : Except (Fault K) (Option (Progress K X))) (v : Setting K (Parts X ω σ α τ)) :
    Prop where
  course : ∃ said q u,
    e.Rounds m coupling clock (opening (clock 0) initial) (w.saying said) rounds q u ∧
      e.Ends m coupling clock q u tail broken? res v
  journal : v.own.journal.toList = w.own.journal.toList ++
    (rounds.flatMap Round.exchanges ++ tail).map Exchange.call ++ broken?.toList

/-- A run that was stopped stands where its rounds left it, and there the rule said yes. -/
theorem Account.stopped
    (h : e.Account m coupling clock initial w rounds tail broken? (.ok (some p)) v) :
    ∃ said u z, broken? = none ∧
      e.Rounds m coupling clock (opening (clock 0) initial) (w.saying said) rounds p u ∧
      e.Exchanged m (clock (2 * p.statistics.iterations + 1)) u
        ⟨.shouldStop p.best p.current, .verdict true⟩ z := by
  obtain ⟨said, q, u, hrounds, hends⟩ := h.course
  cases hends with
  | stopped asked => exact ⟨said, u, _, rfl, hrounds, asked⟩

/-- Its record counts its rounds. -/
theorem Account.iterations_eq
    (h : e.Account m coupling clock initial w rounds tail broken? (.ok (some p)) v) :
    p.statistics.iterations = rounds.length := by
  obtain ⟨said, u, z, -, hrounds, -⟩ := h.stopped
  exact hrounds.iterations_eq

/-- A run that is refused does nothing. -/
theorem run_refused {f : Fault K} (fuel : Nat)
    (h : e.prepare (m.selector.coupling w.own.scheme) initial? = .error f) :
    result (e.run m clock fuel initial?) w = (.error f, w) := by
  rw [run, result_bind, result_own]
  simp only
  rw [h, result_bind, result_ofExcept]

/-- A run that is not refused is the loop from its opening. -/
theorem run_eq_loop (clock : Nat → Int) (fuel : Nat)
    (h : e.prepare (m.selector.coupling w.own.scheme) initial? = .ok (initial, coupling)) :
    ∃ said, result (e.run m clock fuel initial?) w
      = result (e.loop m coupling clock fuel (opening (clock 0) initial)) (w.saying said) := by
  rw [run, result_bind, result_own]
  simp only
  rw [h, result_bind, result_ofExcept]
  simp only
  rw [result_bind, start, result_bind, result_sayIf]
  exact ⟨_, rfl⟩

/-- A run has an account. -/
theorem exists_account {fuel : Nat}
    (ready : e.prepare (m.selector.coupling w.own.scheme) initial? = .ok (initial, coupling))
    (h : result (e.run m clock fuel initial?) w = (res, v)) :
    ∃ rounds tail broken?, e.Account m coupling clock initial w rounds tail broken? res v ∧
      (res = .ok none → rounds.length = fuel) := by
  obtain ⟨said, hrun⟩ := run_eq_loop clock fuel ready
  rw [h] at hrun
  obtain ⟨rounds, q, u, tail, broken?, hrounds, hends, hfuel⟩ :=
    loop_cases (ready_of_prepare ready).2.covers fuel _ _ hrun.symm
  refine ⟨rounds, tail, broken?, ⟨⟨said, q, u, hrounds, hends⟩, ?_⟩, hfuel⟩
  rw [hends.journal, hrounds.journal]
  simp

/-- Any run is refused by the checks and does nothing, or it passes them and has an account. -/
theorem run_checked_cases {fuel : Nat}
    (h : result (e.run m clock fuel initial?) w = (res, v)) :
    (∃ f, e.prepare (m.selector.coupling w.own.scheme) initial? = .error f ∧ res = .error f ∧
      v = w) ∨
    ∃ initial coupling rounds tail broken?,
      e.prepare (K := K) (m.selector.coupling w.own.scheme) initial? = .ok (initial, coupling) ∧
      e.Account m coupling clock initial w rounds tail broken? res v := by
  rcases ready : e.prepare (m.selector.coupling w.own.scheme) initial? (K := K) with
    f | ⟨initial, coupling⟩
  · rw [run_refused fuel ready] at h
    obtain ⟨rfl, rfl⟩ := Prod.mk.inj h
    exact Or.inl ⟨f, rfl, rfl, rfl⟩
  · obtain ⟨rounds, tail, broken?, haccount, -⟩ := exists_account ready h
    exact Or.inr ⟨initial, coupling, rounds, tail, broken?, rfl, haccount⟩

/-- Any run is refused and does nothing, or has an account. -/
theorem run_cases {fuel : Nat} (h : result (e.run m clock fuel initial?) w = (res, v)) :
    (∃ f, res = .error f ∧ v = w) ∨ ∃ initial coupling rounds tail broken?,
      e.Account m coupling clock initial w rounds tail broken? res v := by
  rcases run_checked_cases h with
    ⟨f, -, hrefused⟩ | ⟨initial, coupling, rounds, tail, broken?, -, haccount⟩
  · exact Or.inl ⟨f, hrefused⟩
  · exact Or.inr ⟨initial, coupling, rounds, tail, broken?, haccount⟩

/-- A call of a run is one of its rounds, or belongs to its end. -/
theorem mem_calls_cases {call : Call X}
    (h : call ∈ (rounds.flatMap Round.exchanges ++ tail).map Exchange.call ++ broken?.toList) :
    (∃ r ∈ rounds, call ∈ r.exchanges.map Exchange.call) ∨
      call ∈ tail.map Exchange.call ++ broken?.toList := by
  rw [List.map_append, List.append_assoc] at h
  rcases List.mem_append.1 h with h | h
  · obtain ⟨x, hx, rfl⟩ := List.mem_map.1 h
    obtain ⟨r, hr, hx⟩ := List.mem_flatMap.1 hx
    exact Or.inl ⟨r, hr, List.mem_map_of_mem hx⟩
  · exact Or.inr h

/-- A run that was stopped passed the checks and has an account. -/
theorem exists_account_of_stopped {fuel : Nat}
    (h : result (e.run m clock fuel initial?) w = (.ok (some p), v)) :
    ∃ initial coupling rounds tail,
      e.Account m coupling clock initial w rounds tail none (.ok (some p)) v := by
  rcases run_cases h with ⟨f, hf, -⟩ | ⟨initial, coupling, rounds, tail, broken?, haccount⟩
  · cases hf
  · obtain ⟨-, -, -, rfl, -⟩ := haccount.stopped
    exact ⟨initial, coupling, rounds, tail, haccount⟩

/-- **The protocol of a run.**  A run that passed the checks goes through lawful rounds, each of
which begins with the solutions and the record that the one before it left, and then it ends.  If
it is broken off, that happens inside one more lawful round, at a call that failed or whose answer
cannot be used.  The journal holds these calls and no others. -/
theorem run_protocol {fuel : Nat}
    (ready : e.prepare (m.selector.coupling w.own.scheme) initial? = .ok (initial, coupling))
    (h : result (e.run m clock fuel initial?) w = (res, v)) :
    ∃ said rounds q u tail broken?,
      e.Rounds m coupling clock (opening (clock 0) initial) (w.saying said) rounds q u ∧
        e.Ends m coupling clock q u tail broken? res v ∧
        (res = .ok none → rounds.length = fuel) ∧
        v.own.journal.toList = w.own.journal.toList ++
          (rounds.flatMap Round.exchanges ++ tail).map Exchange.call ++ broken?.toList := by
  obtain ⟨rounds, tail, broken?, haccount, hfuel⟩ := exists_account ready h
  obtain ⟨said, q, u, hrounds, hends⟩ := haccount.course
  exact ⟨said, rounds, q, u, tail, broken?, hrounds, hends, hfuel, haccount.journal⟩

end Engine

/-! ## 3. A small search

Solutions that are nothing but their objective, two operators that leave them alone and two that
take one off, and a rule that stops when the best objective is below a bound.  Every candidate is a
new best solution, so it does not matter which pairs are proposed and what the criterion says. -/

namespace Countdown

/-- A solution that is its own objective. -/
structure Level (K : Type) where
  height : K

instance {K : Type} : Solution K (Level K) where
  objective := Level.height

section Search

variable {K σ α : Type} [Sub K] [One K]

/-- An operator that leaves solutions alone. -/
def keep : Operator K (Level K) Unit := fun x => return some x

/-- An operator that takes one off. -/
def lower : Operator K (Level K) Unit := fun x => return some ⟨x.height - 1⟩

/-- Two operators of the one and two of the other kind.  Of the latter the second may only follow
the first of the former. -/
def engine : Engine K (Level K) Unit where
  destroy := { role := "destroy", entries := [⟨"keep", keep⟩, ⟨"hold", keep⟩] }
  repair := { role := "repair", entries := [⟨"lower", lower⟩, ⟨"drop", lower⟩] }
  onlyAfter := [("drop", ["keep"])]

theorem item_of_mem_destroy {op : Entry (Operator K (Level K) Unit)}
    (h : op ∈ (engine : Engine K (Level K) Unit).destroy.entries) : op.item = keep := by
  simp only [engine, List.mem_cons, List.not_mem_nil, or_false] at h
  rcases h with rfl | rfl
  · rfl
  · rfl

theorem item_of_mem_repair {op : Entry (Operator K (Level K) Unit)}
    (h : op ∈ (engine : Engine K (Level K) Unit).repair.entries) : op.item = lower := by
  simp only [engine, List.mem_cons, List.not_mem_nil, or_false] at h
  rcases h with rfl | rfl
  · rfl
  · rfl

/-- The pairs that may be combined, which are all but the last. -/
def permitted : Coupling := Coupling.ofRule 2 2 fun d r => !(d == 1 && r == 1)

/-- A scheme that proposes the first pair. -/
def firstPair : Selector K (Level K) Unit where
  coupling := fun _ => permitted
  select := fun _ _ => return ⟨0, 0⟩
  update := fun _ _ _ => return ()

/-- A criterion that takes every candidate. -/
def everyLevel : Acceptor K (Level K) Unit where
  accept := fun _ _ _ => return true

/-- A scheme, a criterion, and the rule that stops below a bound. -/
def methods [LT K] [DecidableLT K] (selector : Selector K (Level K) σ)
    (acceptor : Acceptor K (Level K) α) (bound : K) : Methods K (Level K) σ α Unit where
  selector := selector
  acceptor := acceptor
  stopper := { ask := fun _ best _ => return decide (best.height < bound) }

/-- The search before its run. -/
def setting (scheme : σ) (criterion : α) : Setting K (Parts (Level K) Unit σ α Unit) where
  own := { world := (), scheme := scheme, criterion := criterion, stop := () }
  rng := ⟨0, 1⟩

theorem prepare_countdown (initial : Level K) :
    (engine : Engine K (Level K) Unit).prepare permitted (some initial)
      = .ok (initial, permitted) := by
  with_unfolding_all rfl

end Search

section Run

variable {K σ α : Type}

/-- From a state with some property a scheme proposes a permitted pair and takes a report about one,
and the property stays. -/
structure Supplies (selector : Selector K (Level K) σ) (Holds : σ → Prop) : Prop where
  coupling : ∀ s, Holds s → selector.coupling s = permitted
  select : ∀ best current {w : Setting K σ}, Holds w.own → ∃ dr v,
    result (selector.select best current) w = (.ok (Pair.ofNat dr), v) ∧
      permitted.allows dr.1 dr.2 = true ∧ Holds v.own
  update : ∀ y o {dr : Nat × Nat} {w : Setting K σ}, permitted.allows dr.1 dr.2 = true →
    Holds w.own → ∃ v, result (selector.update y (Pair.ofNat dr) o) w = (.ok (), v) ∧ Holds v.own

/-- From a state with some property a criterion answers, and the property stays. -/
def Judges (acceptor : Acceptor K (Level K) α) (Holds : α → Prop) : Prop :=
  ∀ best current y {w : Setting K α}, Holds w.own → ∃ yes v,
    result (acceptor.accept best current y) w = (.ok yes, v) ∧ Holds v.own

variable [Ring K] [LinearOrder K] [IsStrictOrderedRing K] {selector : Selector K (Level K) σ}
  {acceptor : Acceptor K (Level K) α} {Supplying : σ → Prop} {Judging : α → Prop} {bound : K}
  {p : Progress K (Level K)} {w : Setting K (Parts (Level K) Unit σ α Unit)}

omit [LinearOrder K] [IsStrictOrderedRing K] in
/-- The pairs that may be combined are registered. -/
theorem entry_of_allows {dr : Nat × Nat} (h : permitted.allows dr.1 dr.2 = true) :
    (∃ name, (engine : Engine K (Level K) Unit).destroy.entry dr.1
      = (.ok ⟨name, keep⟩ : Except (Fault K) _)) ∧
    ∃ name, (engine : Engine K (Level K) Unit).repair.entry dr.2
      = (.ok ⟨name, lower⟩ : Except (Fault K) _) := by
  obtain ⟨hd, hr⟩ : dr.1 < 2 ∧ dr.2 < 2 := Coupling.lt_of_allows h
  constructor
  · refine ⟨(engine : Engine K _ _).destroy.entries[dr.1].name, ?_⟩
    rw [← item_of_mem_destroy (List.getElem_mem hd)]
    exact Registry.entry_eq hd
  · refine ⟨(engine : Engine K _ _).repair.entries[dr.2].name, ?_⟩
    rw [← item_of_mem_repair (List.getElem_mem hr)]
    exact Registry.entry_eq hr

/-- Whatever pair is proposed, and whatever the criterion says, an iteration takes one off. -/
theorem turn_countdown (bound : K) (hs : Supplies selector Supplying)
    (ha : Judges acceptor Judging) (hcurrent : p.current = p.best)
    (hw : Supplying w.own.scheme) (hw' : Judging w.own.criterion) :
    ∃ t u, result (engine.turn (methods selector acceptor bound) permitted p) w = (.ok t, u) ∧
      t.best = ⟨p.best.height - 1⟩ ∧ t.current = t.best ∧ Supplying u.own.scheme ∧
      Judging u.own.criterion := by
  obtain ⟨dr, v, hselect, hallow, hv⟩ := hs.select p.best p.current
    (w := ⟨w.own.scheme, w.rng, w.lines⟩) hw
  obtain ⟨⟨destroy, hdestroy⟩, repair, hrepair⟩ := entry_of_allows (K := K) hallow
  obtain ⟨yes, v', haccept, hv'⟩ := ha p.best p.current ⟨p.best.height - 1⟩
    (w := ⟨w.own.criterion, v.rng, v.lines⟩) hw'
  obtain ⟨v'', hupdate, hv''⟩ := hs.update ⟨p.best.height - 1⟩ .best hallow
    (w := ⟨v.own, v'.rng, v'.lines⟩) hv
  rw [hcurrent] at hselect haccept
  have hquiet : (engine : Engine K (Level K) Unit).verbose = false := rfl
  have halone : (engine : Engine K (Level K) Unit).onBest? = none := rfl
  have himproves : p.best.height - 1 < p.best.height := sub_one_lt _
  obtain ⟨journal, hturn⟩ : ∃ journal,
      result (engine.turn (methods selector acceptor bound) permitted p) w =
        (.ok ⟨destroy, repair, .best, ⟨p.best.height - 1⟩, ⟨p.best.height - 1⟩⟩,
          ⟨{ w.own with scheme := v''.own, criterion := v'.own, journal },
            v''.rng, v''.lines⟩) := by
    simp [Engine.turn, Engine.select, Engine.destroyAt, Engine.repairAt, Engine.evaluate,
      Engine.accepts, Engine.polish, Engine.report, Engine.apply, Engine.entering, methods, keep,
      lower, objective, Solution.objective, result_bind, result_on, result_map, Except.map,
      hselect, Coupling.legal?_ofNat hallow, hdestroy, hrepair, haccept, hupdate, hcurrent,
      himproves, hquiet, halone]
  exact ⟨_, _, hturn, rfl, rfl, hv'', hv'⟩

omit [Ring K] [IsStrictOrderedRing K] in
/-- The rule says whether the best solution is below the bound. -/
theorem shouldStop_countdown (selector : Selector K (Level K) σ) (acceptor : Acceptor K (Level K) α)
    (now : Int) (p : Progress K (Level K)) (w : Setting K (Parts (Level K) Unit σ α Unit))
    {yes : Bool} (h : decide (p.best.height < bound) = yes) :
    ∃ v, result (Engine.shouldStop (methods selector acceptor bound) now p) w = (.ok yes, v) ∧
      v.own.scheme = w.own.scheme ∧ v.own.criterion = w.own.criterion := by
  subst h
  exact ⟨_, rfl, rfl, rfl⟩

/-- From any height the loop goes down to zero. -/
theorem loop_countdown (hs : Supplies selector Supplying) (ha : Judges acceptor Judging)
    (clock : Nat → Int) {n fuel : Nat} (hfuel : n < fuel)
    (hp : p.statistics.last?.isSome = true) (hbest : p.best = ⟨n⟩) (hcurrent : p.current = ⟨n⟩)
    (hw : Supplying w.own.scheme) (hw' : Judging w.own.criterion) :
    ∃ q v, result (engine.loop (methods selector acceptor 1) permitted clock fuel p) w
        = (.ok (some q), v) ∧
      q.best = ⟨0⟩ ∧ q.current = ⟨0⟩ ∧
      q.statistics.iterations = p.statistics.iterations + n := by
  induction n generalizing p w fuel with
  | zero =>
    obtain ⟨fuel, rfl⟩ := Nat.exists_eq_add_of_lt hfuel
    have hbelow : p.best.height < 1 := by
      simp [hbest]
    obtain ⟨v, hyes, -⟩ := shouldStop_countdown selector acceptor
      (clock (2 * p.statistics.iterations + 1)) p w (decide_eq_true hbelow)
    obtain ⟨said, hstop⟩ := Engine.loop_of_stop engine permitted clock (0 + fuel) hyes
    rw [Nat.cast_zero] at hbest hcurrent
    exact ⟨p, _, hstop, hbest, hcurrent, rfl⟩
  | succ n ih =>
    obtain ⟨fuel, rfl⟩ : ∃ more, fuel = more + 1 := ⟨fuel - 1, by omega⟩
    have habove : ¬p.best.height < 1 := by
      simp [hbest]
    obtain ⟨v, hno, hscheme, hcriterion⟩ := shouldStop_countdown selector acceptor
      (clock (2 * p.statistics.iterations + 1)) p w (decide_eq_false habove)
    obtain ⟨t, u, hturn, ht, htcurrent, hu, hu'⟩ := turn_countdown 1 hs ha
      (hcurrent.trans hbest.symm) (hscheme ▸ hw) (hcriterion ▸ hw')
    obtain ⟨said, hloop⟩ := Engine.loop_of_turn clock fuel hno hturn
    have hlower : t.best = ⟨n⟩ := by
      rw [ht, hbest, Nat.cast_succ, add_sub_cancel_right]
    obtain ⟨-, hiterations, hlast, -⟩ := Engine.statistics_recorded (p := p)
      (clock (2 * p.statistics.iterations + 2)) t hp
    obtain ⟨q, z, hrest, hq, hq', hcount⟩ := ih (w := u.saying said)
      (show n < fuel by omega) hlast hlower (htcurrent.trans hlower) hu hu'
    refine ⟨q, z, hloop.trans hrest, hq, hq', ?_⟩
    rw [hcount, hiterations]
    omega

/-- **A countdown ends at zero.**  Whatever permitted pairs are proposed, and whatever the criterion
says, it takes as many iterations as the height it began at. -/
theorem run_countdown (hs : Supplies selector Supplying) (ha : Judges acceptor Judging)
    (clock : Nat → Int) {n fuel : Nat} (hfuel : n < fuel) {height : K} (hn : height = n)
    (hw : Supplying w.own.scheme) (hw' : Judging w.own.criterion) :
    ∃ q v, result (engine.run (methods selector acceptor 1) clock fuel (some ⟨height⟩)) w
        = (.ok (some q), v) ∧
      q.best = ⟨0⟩ ∧ q.current = ⟨0⟩ ∧ q.statistics.iterations = n := by
  have hready : engine.prepare ((methods selector acceptor 1).selector.coupling w.own.scheme)
      (some ⟨height⟩) = .ok (⟨height⟩, permitted) := by
    rw [methods, hs.coupling _ hw]
    exact prepare_countdown _
  obtain ⟨said, hrun⟩ := Engine.run_eq_loop (m := methods selector acceptor 1) clock fuel hready
  obtain ⟨q, v, hloop, hbest, hcurrent, hcount⟩ := loop_countdown (w := w.saying said)
    (p := Engine.opening (clock 0) ⟨height⟩) hs ha clock hfuel rfl (congrArg _ hn) (congrArg _ hn)
    hw hw'
  exact ⟨q, v, hrun.trans hloop, hbest, hcurrent, hcount.trans (Nat.zero_add n)⟩

/-- The countdown from two is stopped at zero after two iterations. -/
theorem run_from_two (hs : Supplies selector Supplying) (ha : Judges acceptor Judging)
    (hw : Supplying w.own.scheme) (hw' : Judging w.own.criterion) :
    ∃ q v, result (engine.run (methods selector acceptor 1) (fun n => (n : Int)) 3 (some ⟨2⟩)) w
        = (.ok (some q), v) ∧
      q.best = ⟨0⟩ ∧ q.current = ⟨0⟩ ∧ q.statistics.iterations = 2 :=
  run_countdown hs ha _ (by decide) Nat.cast_ofNat.symm hw hw'

end Run

/-- What comes of counting down from two below one, and the setting it leaves. -/
def ran : Except (Fault Int) (Option (Progress Int (Level Int))) ×
    Setting Int (Parts (Level Int) Unit Unit Unit Unit) :=
  result (engine.run (methods firstPair everyLevel 1) (fun n => (n : Int)) 3 (some ⟨2⟩))
    (setting () ())

theorem supplies_firstPair {K : Type} :
    Supplies (firstPair : Selector K (Level K) Unit) fun _ => True where
  coupling := fun _ _ => rfl
  select := fun _ _ _ _ => ⟨(0, 0), _, rfl, rfl, True.intro⟩
  update := fun _ _ _ _ _ _ => ⟨_, rfl, True.intro⟩

theorem judges_everyLevel {K : Type} :
    Judges (everyLevel : Acceptor K (Level K) Unit) fun _ => True :=
  fun _ _ _ _ _ => ⟨_, _, rfl, True.intro⟩

theorem ran_eq : ∃ q v, ran = (.ok (some q), v) ∧ q.best = ⟨0⟩ ∧ q.current = ⟨0⟩ ∧
    q.statistics.iterations = 2 :=
  run_from_two (w := setting () ()) supplies_firstPair judges_everyLevel True.intro True.intro

end Countdown

open Countdown in
/-- The countdown from two goes through two rounds and is stopped at zero. -/
theorem run_protocol_countdown :
    ∃ said rounds q u tail broken?,
      engine.Rounds (methods firstPair everyLevel 1) permitted (fun n => (n : Int))
          (Engine.opening 0 ⟨2⟩) ((setting () ()).saying said) rounds q u ∧
        engine.Ends (methods firstPair everyLevel 1) permitted (fun n => (n : Int)) q u
          tail broken? ran.1 ran.2 ∧
        ran.1 = .ok (some q) ∧ q.best = ⟨0⟩ ∧ rounds.length = 2 ∧
        ran.2.own.journal.toList =
          (rounds.flatMap Round.exchanges ++ tail).map Exchange.call ++ broken?.toList := by
  obtain ⟨q, v, hran, hbest, -, hcount⟩ := ran_eq
  obtain ⟨said, rounds, p, u, tail, broken?, hrounds, hends, -, hjournal⟩ :=
    Engine.run_protocol (prepare_countdown (⟨2⟩ : Level Int)) hran
  have hstopped : p = q := by
    cases hends
    rfl
  rw [hran]
  rw [hstopped] at hrounds hends
  exact ⟨said, rounds, q, u, tail, broken?, hrounds, hends, rfl, hbest,
    hrounds.iterations_eq.symm.trans hcount, hjournal⟩

end LargeNeighbourhood
