/-
# Hill climbing in two runs

A run of hill climbing that an iteration limit stopped may be taken up again, from its current
solution and with a new limit.  The two runs together do what one longer run does
(`Engine.hill_climbing_resumed`).

The second run begins with the current solution as its best one, while the longer run keeps the best
solution it has.  The two need not be the same, but they have the same objective: hill climbing
keeps the current solution as good as the best.  And nothing but the objective of the best solution
matters.  The search compares with it, hill climbing does not look at it, and neither does a scheme
(`Selector.Oblivious`).

So the proof takes two runs in lock-step that may differ in how many iterations they are still
allowed (`Parts.InStep`) and in their best solutions (`Progress.InStep`).  One iteration keeps them
so (`Engine.Climbs.iteration`).  The shorter run stays in step with the longer one as long as it
goes on (`Engine.Climbs.resumed`), and from there on it is the second run that does
(`Engine.Climbs.loop`).
-/
import Mathlib
import LargeNeighbourhood.Proofs.Search.Climbing
import LargeNeighbourhood.Proofs.Search.Length
import LargeNeighbourhood.Proofs.Selection.Oblivious

namespace LargeNeighbourhood

open Act

/-! ## 1. What a search did and left behind -/

/-- Nothing the operators and the callback do depends on the log. -/
structure Engine.Deaf {K X ω : Type} (e : Engine K X ω) : Prop where
  destroy : ∀ op ∈ e.destroy.entries, ∀ x, Act.Deaf (op.item x)
  repair : ∀ op ∈ e.repair.entries, ∀ x, Act.Deaf (op.item x)
  onBest : ∀ op, e.onBest? = some op → ∀ x, Act.Deaf (op x)

/-- The objectives of solutions are linearly ordered. -/
structure Solution.Linear (K X : Type) [LT K] [LE K] [Solution K X] : Prop where
  antisymm : ∀ x y : X, objective x ≤ objective y → objective y ≤ objective x →
    objective x = objective y
  le_of_not_lt : ∀ x y : X, ¬objective x < objective y → objective y ≤ objective x

theorem Solution.linear_of_linearOrder {K X : Type} [LinearOrder K] [Solution K X] :
    Solution.Linear K X where
  antisymm := fun _ _ => le_antisymm
  le_of_not_lt := fun _ _ => not_lt.1

/-- A call without the best solution it tells.  Questions whether to stop do not count. -/
def Call.deed? {X : Type} : Call X → Option (Call X)
  | .shouldStop _ _ => none
  | .select _ current => some (.select current current)
  | .accept _ current candidate => some (.accept current current candidate)
  | call => some call

/-- What a search did: its calls, in order. -/
def Parts.deeds {X ω σ α τ : Type} (q : Parts X ω σ α τ) : List (Call X) :=
  q.journal.toList.filterMap Call.deed?

/-- The searches did the same, and it left the same behind.  Their rules may differ, and so may the
best solutions they told. -/
structure Parts.Alongside {X ω σ α τ : Type} (q q' : Parts X ω σ α τ) : Prop where
  world : q.world = q'.world
  scheme : q.scheme = q'.scheme
  criterion : q.criterion = q'.criterion
  deeds : q.deeds = q'.deeds

namespace Parts.Alongside

variable {X ω σ α τ : Type} {q r s : Parts X ω σ α τ}

theorem symm (h : q.Alongside r) : r.Alongside q :=
  ⟨h.world.symm, h.scheme.symm, h.criterion.symm, h.deeds.symm⟩

theorem trans (h : q.Alongside r) (h' : r.Alongside s) : q.Alongside s :=
  ⟨h.world.trans h'.world, h.scheme.trans h'.scheme, h.criterion.trans h'.criterion,
    h.deeds.trans h'.deeds⟩

end Parts.Alongside

/-! ## 2. Searches in step -/

/-- So many iterations a tree of iteration limits still allows. -/
def Stopping.Left {K : Type} (k : Nat) (s : Stopping (Limit K)) : Prop :=
  ∃ asked n, s.root.span? asked = some n ∧ k = n - asked

/-- Where the searches stand side by side, with so many iterations left to each. -/
structure Parts.InStep {K X ω σ α : Type} (coupling : σ → Coupling) (c : Coupling) (k k' : Nat)
    (q q' : Parts X ω σ α (Stopping (Limit K))) : Prop extends q.Alongside q' where
  coupled : coupling q.scheme = c
  left : q.stop.Left k
  left' : q'.stop.Left k'

/-- The current solutions are the same, and as good as either of the best ones.  Since some earlier
moment the same objectives were recorded. -/
structure Progress.InStep {K X : Type} [Solution K X] (before before' : List K)
    (p p' : Progress K X) : Prop where
  current : p.current = p'.current
  best : objective p.best = objective p'.best
  level : objective p.current = objective p.best
  upToDate : p.UpToDate
  since : ∃ after, p.statistics.objectives.toList = before ++ after ∧
    p'.statistics.objectives.toList = before' ++ after

/-- The iterations led to the same current solution, as good as either of the best ones. -/
structure Turn.InStep {K X : Type} [Solution K X] (t t' : Turn X) : Prop where
  current : t.current = t'.current
  best : objective t.best = objective t'.best
  level : objective t.current = objective t.best

/-- Records go on alike. -/
theorem Progress.InStep.recorded {K X : Type} [Solution K X] {before before' : List K}
    {p p' : Progress K X} (h : p.InStep before before' p') (now now' : Int) {t t' : Turn X}
    (ht : t.InStep t') :
    (Engine.recorded now p t).InStep before before' (Engine.recorded now' p' t') where
  current := ht.current
  best := ht.best
  level := ht.level
  upToDate := Engine.upToDate_recorded now p t
  since := by
    obtain ⟨after, hp, hp'⟩ := h.since
    refine ⟨after ++ [objective t.current], ?_, ?_⟩
    · rw [Engine.objectives_recorded, Array.toList_push, hp, List.append_assoc]
    · rw [Engine.objectives_recorded, Array.toList_push, hp', List.append_assoc, ht.current]

/-- Runs from the same solution begin in step ... -/
theorem Progress.inStep_opening {K X : Type} [Solution K X] (now now' : Int) (x : X) :
    (Engine.opening now x : Progress K X).InStep [] [] (Engine.opening now' x) where
  current := rfl
  best := rfl
  level := rfl
  upToDate := Engine.upToDate_opening now x
  since := ⟨[objective x], rfl, rfl⟩

/-- ... and one from the current solution begins in step with the run that got there. -/
theorem Progress.InStep.opening {K X : Type} [Solution K X] {before before' : List K}
    {p p' : Progress K X} (h : p.InStep before before' p') (now : Int) :
    (Engine.opening now p.current : Progress K X).InStep [objective p.current]
      p'.statistics.objectives.toList p' where
  current := h.current
  best := h.level.trans h.best
  level := rfl
  upToDate := Engine.upToDate_opening now p.current
  since := ⟨[], rfl, (List.append_nil _).symm⟩

/-! ## 3. Runs with a limit -/

/-- The setting with a new limit of `n` iterations. -/
def Setting.limitedTo {K X ω σ α : Type} (n : Nat)
    (w : Setting K (Parts X ω σ α (Stopping (Limit K)))) :
    Setting K (Parts X ω σ α (Stopping (Limit K))) :=
  { w with own := { w.own with stop := { root := .limit (.iterations ⟨n, 0⟩) } } }

namespace Engine

variable {K X ω σ α π : Type} [Solution K X]

section Runs

variable [LT K] [DecidableLT K] (e : Engine K X ω) (m : Methods K X σ α (Stopping (Limit K)))

/-- A run with a new limit of `n` iterations. -/
def runFor (n : Nat) (clock : Nat → Int) (fuel : Nat) (initial : X) :
    Act K (Parts X ω σ α (Stopping (Limit K))) (Option (Progress K X)) := do
  Act.change fun q => { q with stop := { root := .limit (.iterations ⟨n, 0⟩) } }
  e.run m clock fuel (some initial)

theorem result_runFor (n : Nat) (clock : Nat → Int) (fuel : Nat) (initial : X)
    (w : Setting K (Parts X ω σ α (Stopping (Limit K)))) :
    result (e.runFor m n clock fuel initial) w
      = result (e.run m clock fuel (some initial)) (w.limitedTo n) := by
  rw [runFor, result_bind, result_change]
  rfl

/-- Another run from where one was stopped; the progress of both. -/
def resume (n : Nat) (clock : Nat → Int) (fuel : Nat) : Option (Progress K X) →
    Act K (Parts X ω σ α (Stopping (Limit K))) (Option (Progress K X × Progress K X))
  | none => return none
  | some p => Option.map (Prod.mk p) <$> e.runFor m n clock fuel p.current

end Runs

/-- The runs `p` and `q`, the second from where the first was stopped, recorded what the run `r`
recorded: the last objective of the first is the first of the second, and `r` has it once. -/
structure Resumes (p q r : Progress K X) : Prop where
  current : q.current = r.current
  best : objective q.best = objective r.best
  trace : ∃ before after,
    p.statistics.objectives.toList = before ++ [objective p.current] ∧
    q.statistics.objectives.toList = objective p.current :: after ∧
    r.statistics.objectives.toList = before ++ objective p.current :: after

/-- A run that was in step from its opening, and one that went on in step with the other. -/
theorem resumes_of_inStep {p p' q r : Progress K X} (hp : p.InStep [] [] p')
    (hq : q.InStep [objective p.current] p'.statistics.objectives.toList r) : Resumes p q r where
  current := hq.current
  best := hq.best
  trace := by
    obtain ⟨after, hq, hr⟩ := hq.since
    obtain ⟨all, hall, hall'⟩ := hp.since
    obtain ⟨before, hbefore⟩ : ∃ before,
        p.statistics.objectives.toList = before ++ [objective p.current] := by
      rw [← List.getLast?_eq_some_iff, Array.getLast?_toList]
      exact hp.upToDate
    refine ⟨before, after, hbefore, hq, ?_⟩
    rw [hr, hall', ← hall, hbefore, List.append_assoc]
    rfl

/-- Two runs in a row and one run were all stopped, and recorded the same. -/
def Resumed (pq? : Option (Progress K X × Progress K X)) (r? : Option (Progress K X)) : Prop :=
  ∃ p q r, pq? = some (p, q) ∧ r? = some r ∧ Resumes p q r

/-! ## 4. One iteration in lock-step -/

variable [Scalar K]

/-- Hill climbing with an oblivious scheme and a rule of the library. -/
structure Climbs (e : Engine K X ω) (m : Methods K X σ α (Stopping (Limit K))) : Prop where
  linear : Solution.Linear K X
  deaf : e.Deaf
  oblivious : m.selector.Oblivious
  acceptor : m.acceptor = HillClimbing.acceptor
  stopper : m.stopper = Stopping.stopper Limit.ask

section Calls

variable {coupling : σ → Coupling} {c : Coupling} {k k' : Nat}

omit [Solution K X] [Scalar K] in
theorem agree_enter (call call' : Call X) (h : call.deed? = call'.deed?) :
    Agree (Setting.Over (Parts.InStep coupling c k k')) Eq
      (enter call : Act K (Parts X ω σ α (Stopping (Limit K))) Unit) (enter call') := by
  refine .change fun q q' hq => { hq with deeds := ?_ }
  have hdeeds := hq.deeds
  unfold Parts.deeds at hdeeds ⊢
  simp only [Array.toList_push, List.filterMap_append, List.filterMap_cons, hdeeds, h]

omit [Solution K X] [Scalar K] in
theorem agree_apply {op : Operator K X ω} {x : X} (h : Act.Deaf (op x)) :
    Agree (Setting.Over (Parts.InStep coupling c k k')) Eq
      (apply op x : Act K (Parts X ω σ α (Stopping (Limit K))) _) (apply op x) :=
  h.on (fun _ _ hq => hq.world) fun _ _ _ _ hq hworld => { hq with world := hworld }

end Calls

namespace Climbs

variable {e : Engine K X ω} {m : Methods K X σ α (Stopping (Limit K))} {c coupling : Coupling}
  {k k' : Nat} {before before' : List K} {p p' : Progress K X}

theorem select (h : e.Climbs m) (hp : p.current = p'.current) :
    Agree (Setting.Over (Parts.InStep m.selector.coupling c k k')) Eq
      (Engine.select m coupling p : Act K (Parts X ω σ α (Stopping (Limit K))) _)
      (Engine.select m coupling p') := by
  unfold Engine.select
  rw [hp]
  refine (agree_enter (.select p.best _) (.select p'.best _) rfl).bind_eq fun _ => ?_
  refine Agree.bind_eq ?_ fun pair => ?_
  · exact (h.oblivious.select c p.best p'.best p'.current).on
      (fun _ _ hq => ⟨hq.scheme, hq.coupled⟩)
      fun _ _ _ _ hq hs => { hq with scheme := hs.1, coupled := hs.2 }
  · cases coupling.legal? pair with
    | none => exact .throw _
    | some dr => exact .pure rfl

theorem destroyAt (h : e.Climbs m) (d : Nat) (x : X) :
    Agree (Setting.Over (Parts.InStep m.selector.coupling c k k')) Eq
      (e.destroyAt d x : Act K (Parts X ω σ α (Stopping (Limit K))) _) (e.destroyAt d x) :=
  agree_destroyAt (fun call => agree_enter call call rfl) fun op hop =>
    agree_apply (h.deaf.destroy op (Registry.mem_of_entry hop) x)

theorem repairAt (h : e.Climbs m) (r : Nat) (x : X) :
    Agree (Setting.Over (Parts.InStep m.selector.coupling c k k')) Eq
      (e.repairAt r x : Act K (Parts X ω σ α (Stopping (Limit K))) _) (e.repairAt r x) :=
  agree_repairAt (fun call => agree_enter call call rfl) fun op hop =>
    agree_apply (h.deaf.repair op (Registry.mem_of_entry hop) x)

theorem polish (h : e.Climbs m) (y : X) :
    Agree (Setting.Over (Parts.InStep m.selector.coupling c k k')) Eq
      (e.polish y : Act K (Parts X ω σ α (Stopping (Limit K))) _) (e.polish y) :=
  agree_polish (fun call => agree_enter call call rfl) fun op hop =>
    agree_apply (h.deaf.onBest op hop y)

theorem report (h : e.Climbs m) (y : X) (pair : Pair) (o : Outcome) :
    Agree (Setting.Over (Parts.InStep m.selector.coupling c k k')) Eq
      (Engine.report m y pair o : Act K (Parts X ω σ α (Stopping (Limit K))) _)
      (Engine.report m y pair o) :=
  (agree_enter _ _ rfl).bind_eq fun _ => (h.oblivious.update c y pair o).on
    (fun _ _ hq => ⟨hq.scheme, hq.coupled⟩)
    fun _ _ _ _ hq hs => { hq with scheme := hs.1, coupled := hs.2 }

theorem accepts (h : e.Climbs m) (hp : p.current = p'.current) (y : X) :
    Agree (Setting.Over (Parts.InStep m.selector.coupling c k k'))
      (fun a a' => a = a' ∧ a = decide (objective y ≤ objective p.current))
      (Engine.accepts m p y : Act K (Parts X ω σ α (Stopping (Limit K))) _)
      (Engine.accepts m p' y) := by
  unfold Engine.accepts
  rw [hp, h.acceptor]
  refine (agree_enter (.accept p.best _ y) (.accept p'.best _ y) rfl).bind_eq fun _ => ?_
  exact Agree.on (T := Eq) (.pure ⟨rfl, rfl⟩) (fun _ _ hq => hq.criterion)
    fun _ _ _ _ hq hs => { hq with criterion := hs }

/-- A candidate is judged alike, and leaves the current solution as good as the best. -/
theorem evaluate (h : e.Climbs m) (hp : p.InStep before before' p') (y : X) :
    Agree (Setting.Over (Parts.InStep m.selector.coupling c k k'))
      (fun t t' => t.1 = t'.1 ∧ t.2.2 = t'.2.2 ∧ objective t.2.1 = objective t'.2.1 ∧
        objective t.2.2 = objective t.2.1)
      (e.evaluate m p y) (e.evaluate m p' y) := by
  unfold Engine.evaluate
  refine (h.accepts hp.current y).bind ?_
  rintro a _ ⟨rfl, ha⟩
  rw [← hp.best, ← hp.current]
  by_cases hlt : objective y < objective p.best
  · simp only [if_pos hlt]
    refine (Agree.sayIf _ _ _ _).bind_eq fun _ => ?_
    refine (h.polish y).bind_eq fun z => ?_
    exact .pure ⟨rfl, rfl, rfl, rfl⟩
  · simp only [if_neg hlt]
    refine .pure ⟨rfl, rfl, hp.best, ?_⟩
    split
    · -- no worse than the current solution, which is as good as the best, and not better than it
      rename_i htaken
      have hle : objective y ≤ objective p.best :=
        hp.level ▸ of_decide_eq_true (ha.symm.trans htaken)
      exact h.linear.antisymm _ _ hle (h.linear.le_of_not_lt _ _ hlt)
    · exact hp.level

theorem turn (h : e.Climbs m) (coupling : Coupling) (hp : p.InStep before before' p') :
    Agree (Setting.Over (Parts.InStep m.selector.coupling c k k')) Turn.InStep
      (e.turn m coupling p) (e.turn m coupling p') := by
  unfold Engine.turn
  refine (h.select hp.current).bind_eq fun dr => ?_
  rw [hp.current]
  refine (h.destroyAt dr.1 p'.current).bind_eq fun destroyed => ?_
  refine (h.repairAt dr.2 destroyed.2).bind_eq fun repaired => ?_
  refine (h.evaluate hp repaired.2).bind ?_
  rintro ⟨o, best, current⟩ ⟨_, best', current'⟩ ⟨rfl, hcurrent, hbest, hlevel⟩
  refine (h.report repaired.2 _ o).bind_eq fun _ => ?_
  exact .pure ⟨hcurrent, hbest, hlevel⟩

variable {w w' : Setting K (Parts X ω σ α (Stopping (Limit K)))}

/-- The rule says yes when no iteration is left, and the question leaves no trace but in the
rule. -/
theorem exists_shouldStop (h : e.Climbs m) (hw : w.own.stop.Left k) (now : Int)
    (p : Progress K X) :
    ∃ v, result (shouldStop m now p) w = (.ok (decide (k = 0)), v) ∧ v.own.stop.Left (k - 1) ∧
      Setting.Over Parts.Alongside v w := by
  obtain ⟨asked, n, hspan, rfl⟩ := hw
  obtain ⟨hanswer, hnext⟩ := Stopping.ask_span hspan now (objective p.best)
  have hzero : decide (n < asked + 1) = decide (n - asked = 0) := by
    rw [decide_eq_decide]
    omega
  unfold shouldStop
  rw [h.stopper, result_bind, result_enter]
  simp only
  rw [result_on, Stopping.result_ask]
  refine ⟨_, Prod.ext (congrArg Except.ok (hanswer.trans hzero)) rfl, ?_, ⟨rfl, rfl, rfl, ?_⟩, rfl⟩
  · exact ⟨asked + 1, n, hnext, by omega⟩
  · simp [entering, Parts.deeds, Call.deed?]

/-- Searches in step stay so when they ask whether to stop. -/
theorem exists_shouldStop_inStep (h : e.Climbs m)
    (hw : Setting.Over (Parts.InStep m.selector.coupling c k k') w w') (now now' : Int)
    (p p' : Progress K X) :
    ∃ v v', result (shouldStop m now p) w = (.ok (decide (k = 0)), v) ∧
      result (shouldStop m now' p') w' = (.ok (decide (k' = 0)), v') ∧
      Setting.Over (Parts.InStep m.selector.coupling c (k - 1) (k' - 1)) v v' := by
  obtain ⟨v, hs, hleft, hv⟩ := h.exists_shouldStop hw.own.left now p
  obtain ⟨v', hs', hleft', hv'⟩ := h.exists_shouldStop hw.own.left' now' p'
  refine ⟨v, v', hs, hs', ?_, (hv.rng.trans hw.rng).trans hv'.rng.symm⟩
  exact {
    toAlongside := (hv.own.trans hw.own.toAlongside).trans hv'.own.symm
    coupled := hv.own.scheme ▸ hw.own.coupled
    left := hleft
    left' := hleft' }

variable (coupling) (clock clock' : Nat → Int)

/-- **One iteration keeps two searches in step**, or breaks off in both. -/
theorem iteration (h : e.Climbs m) (hp : p.InStep before before' p')
    (hw : Setting.Over (Parts.InStep m.selector.coupling c (k + 1) (k' + 1)) w w')
    (fuel fuel' : Nat) :
    (∃ f v v', result (e.loop m coupling clock (fuel + 1) p) w = (.error f, v) ∧
      result (e.loop m coupling clock' (fuel' + 1) p') w' = (.error f, v') ∧
      Setting.Over Parts.Alongside v v') ∨
    ∃ q q' v v',
      result (e.loop m coupling clock (fuel + 1) p) w
        = result (e.loop m coupling clock fuel q) v ∧
      result (e.loop m coupling clock' (fuel' + 1) p') w'
        = result (e.loop m coupling clock' fuel' q') v' ∧
      q.InStep before before' q' ∧
      Setting.Over (Parts.InStep m.selector.coupling c k k') v v' := by
  obtain ⟨v, v', hs, hs', hgo⟩ := h.exists_shouldStop_inStep hw
    (clock (2 * p.statistics.iterations + 1)) (clock' (2 * p'.statistics.iterations + 1)) p p'
  obtain ⟨hmatch, hafter⟩ := h.turn coupling hp hgo
  rcases ht : result (e.turn m coupling p) v with ⟨r, u⟩
  rcases ht' : result (e.turn m coupling p') v' with ⟨r', u'⟩
  rw [ht, ht'] at hmatch hafter
  cases hmatch with
  | error f =>
    exact .inl ⟨f, u, u', loop_of_broken clock fuel hs ht, loop_of_broken clock' fuel' hs' ht',
      hafter.own.toAlongside, hafter.rng⟩
  | @ok t t' hturn =>
    obtain ⟨said, hloop⟩ := loop_of_turn clock fuel hs ht
    obtain ⟨said', hloop'⟩ := loop_of_turn clock' fuel' hs' ht'
    exact .inr ⟨_, _, _, _, hloop, hloop', hp.recorded _ _ hturn, hafter.own, hafter.rng⟩

/-! ## 5. Whole runs -/

/-- Two searches in step that are allowed the same number of iterations are stopped in step. -/
theorem loop (h : e.Climbs m) {k fuel fuel' : Nat} (hfuel : k < fuel) (hfuel' : k < fuel')
    (hp : p.InStep before before' p')
    (hw : Setting.Over (Parts.InStep m.selector.coupling c k k) w w') :
    Matches (fun q? q'? => ∃ q q', q? = some q ∧ q'? = some q' ∧ q.InStep before before' q')
      (result (e.loop m coupling clock fuel p) w).1
      (result (e.loop m coupling clock' fuel' p') w').1 ∧
    Setting.Over Parts.Alongside (result (e.loop m coupling clock fuel p) w).2
      (result (e.loop m coupling clock' fuel' p') w').2 := by
  induction k generalizing fuel fuel' p p' w w' with
  | zero =>
    obtain ⟨fuel, rfl⟩ := Nat.exists_eq_add_one.2 hfuel
    obtain ⟨fuel', rfl⟩ := Nat.exists_eq_add_one.2 hfuel'
    obtain ⟨v, v', hs, hs', hv⟩ := h.exists_shouldStop_inStep hw
      (clock (2 * p.statistics.iterations + 1)) (clock' (2 * p'.statistics.iterations + 1)) p p'
    obtain ⟨said, hloop⟩ := loop_of_stop e coupling clock fuel hs
    obtain ⟨said', hloop'⟩ := loop_of_stop e coupling clock' fuel' hs'
    rw [hloop, hloop']
    exact ⟨.ok ⟨p, p', rfl, rfl, hp⟩, hv.own.toAlongside, hv.rng⟩
  | succ k ih =>
    obtain ⟨fuel, rfl⟩ := Nat.exists_eq_add_one.2 (Nat.zero_lt_of_lt hfuel)
    obtain ⟨fuel', rfl⟩ := Nat.exists_eq_add_one.2 (Nat.zero_lt_of_lt hfuel')
    rcases h.iteration coupling clock clock' hp hw fuel fuel'
      with ⟨f, v, v', hloop, hloop', hv⟩ | ⟨q, q', v, v', hloop, hloop', hq, hv⟩
    · rw [hloop, hloop']
      exact ⟨.error f, hv⟩
    · rw [hloop, hloop']
      exact ih (by omega) (by omega) hq hv

/-- **A run, and another one from where it was stopped, stay in step with one run.** -/
theorem resumed (h : e.Climbs m) (clock'' : Nat → Int)
    (ready : ∀ x : X, e.prepare c (some x) = .ok (x, coupling)) {k n fuel fuel' fuel'' : Nat}
    (hfuel : k < fuel) (hfuel' : n < fuel') (hfuel'' : k + n < fuel'') (hp : p.InStep [] [] p')
    (hw : Setting.Over (Parts.InStep m.selector.coupling c k (k + n)) w w') :
    Matches Resumed
      (result (e.loop m coupling clock fuel p >>= e.resume m n clock' fuel') w).1
      (result (e.loop m coupling clock'' fuel'' p') w').1 ∧
    Setting.Over Parts.Alongside
      (result (e.loop m coupling clock fuel p >>= e.resume m n clock' fuel') w).2
      (result (e.loop m coupling clock'' fuel'' p') w').2 := by
  induction k generalizing fuel fuel'' p p' w w' with
  | zero =>
    -- the first run is over, and the second one takes its place
    obtain ⟨fuel, rfl⟩ := Nat.exists_eq_add_one.2 hfuel
    obtain ⟨v, hs, -, hv⟩ :=
      h.exists_shouldStop hw.own.left (clock (2 * p.statistics.iterations + 1)) p
    obtain ⟨said, hloop⟩ := loop_of_stop e coupling clock fuel hs
    have hcoupling : m.selector.coupling ((v.saying said).limitedTo n).own.scheme = c :=
      hv.own.scheme ▸ hw.own.coupled
    obtain ⟨said', hrun⟩ := run_eq_loop (w := (v.saying said).limitedTo n) (m := m) clock' fuel'
      (hcoupling.symm ▸ ready p.current)
    have halong := hv.own.trans hw.own.toAlongside
    obtain ⟨hmatch, hafter⟩ := h.loop coupling clock' clock''
      (w := ((v.saying said).limitedTo n).saying said') hfuel' (Nat.zero_add n ▸ hfuel'')
      (hp.opening (clock' 0)) {
        own := {
          world := halong.world
          scheme := halong.scheme
          criterion := halong.criterion
          deeds := halong.deeds
          coupled := hcoupling
          left := ⟨0, n, rfl, rfl⟩
          left' := Nat.zero_add n ▸ hw.own.left' }
        rng := hv.rng.trans hw.rng }
    rw [result_bind, hloop]
    simp only
    rw [resume, result_map, result_runFor, hrun]
    refine ⟨hmatch.map_left ?_, hafter⟩
    rintro _ _ ⟨q, r, rfl, rfl, hq⟩
    exact ⟨p, q, r, rfl, rfl, resumes_of_inStep hp hq⟩
  | succ k ih =>
    obtain ⟨fuel, rfl⟩ := Nat.exists_eq_add_one.2 (Nat.zero_lt_of_lt hfuel)
    obtain ⟨fuel'', rfl⟩ := Nat.exists_eq_add_one.2 (Nat.zero_lt_of_lt hfuel'')
    rw [Nat.add_right_comm] at hw
    rcases h.iteration coupling clock clock'' hp hw fuel fuel''
      with ⟨f, v, v', hloop, hloop', hv⟩ | ⟨q, q', v, v', hloop, hloop', hq, hv⟩
    · rw [result_bind, hloop, hloop']
      exact ⟨.error f, hv⟩
    · rw [result_bind, hloop, hloop', ← result_bind]
      exact ih (by omega) (by omega) hq hv

/-- Two runs in a row that begin alongside a longer one do what it does, or fail as it does. -/
theorem agree_resume (h : e.Climbs m) (clock'' : Nat → Int) {k n fuel fuel' fuel'' : Nat}
    (hfuel : k < fuel) (hfuel' : n < fuel') (hfuel'' : k + n < fuel'') (x : X) :
    Agree (Setting.Over Parts.Alongside) Resumed
      (e.runFor m k clock fuel x >>= e.resume m n clock' fuel')
      (e.runFor m (k + n) clock'' fuel'' x) := by
  intro w w' hw
  have hscheme : (w'.limitedTo (k + n)).own.scheme = (w.limitedTo k).own.scheme :=
    hw.own.scheme.symm
  rw [result_bind, result_runFor, result_runFor, ← result_bind]
  rcases hready : e.prepare (m.selector.coupling (w.limitedTo k).own.scheme) (some x) (K := K) with
    f | ⟨y, coupling⟩
  · rw [result_bind, run_refused fuel hready, run_refused fuel'' (hscheme.symm ▸ hready)]
    exact ⟨.error f, ⟨hw.own.world, hw.own.scheme, hw.own.criterion, hw.own.deeds⟩, hw.rng⟩
  · obtain ⟨said, hrun⟩ := run_eq_loop clock fuel hready
    obtain ⟨said', hrun'⟩ := run_eq_loop clock'' fuel'' (hscheme.symm ▸ hready)
    obtain ⟨hy, -⟩ := ready_of_prepare hready
    cases hy
    rw [result_bind, hrun, ← result_bind, hrun']
    refine h.resumed coupling clock clock' clock'' (fun z => prepare_some hready z) hfuel hfuel'
      hfuel'' (Progress.inStep_opening _ _ _) ⟨?_, hw.rng⟩
    exact { hw.own with coupled := rfl, left := ⟨0, k, rfl, rfl⟩, left' := ⟨0, k + n, rfl, rfl⟩ }

end Climbs

/-! ## 6. Schemes of the library -/

/-- Hill climbing with a scheme and a rule of the library. -/
def climbing (policy : Policy K π) [Elementary K] :
    Methods K X (Scheme K π) α (Stopping (Limit K)) where
  selector := Scheme.selector policy
  acceptor := HillClimbing.acceptor
  stopper := Stopping.stopper Limit.ask

end Engine

/-- **Hill climbing in two runs is hill climbing in one.**  Let the objectives of solutions be
linearly ordered, and let nothing the operators, the callback and the policy of the bandit do depend
on the log.  Then a run with a limit of `k` iterations and another one of `n` from its current
solution do what one run of `k + n` does, whatever the clocks say: the same calls but for the
questions whether to stop and the best solutions told, so the same pairs and outcomes; they leave
the same generator, scheme and world, the same current solution and a best one that is as good; and
their objectives are those of the one run, if the one they share is counted once.  Should a call
fail, or the checks before the run, then both fail with the same fault, after the same calls.  In
exact arithmetic, if the operators and the callback do not fail, the runs are all stopped. -/
theorem Engine.hill_climbing_resumed {X ω α : Type} :
    (∀ {K π : Type} [Scalar K] [Elementary K] [Solution K X] {e : Engine K X ω}
      {policy : Policy K π}, Solution.Linear K X → policy.Deaf → e.Deaf →
      ∀ {k n fuel fuel' fuel'' : Nat}, k < fuel → n < fuel' → k + n < fuel'' →
      ∀ (clock clock' clock'' : Nat → Int) (x : X),
      Agree (Setting.Over Parts.Alongside) Resumed
        (e.runFor (climbing policy : Methods K X (Scheme K π) α _) k clock fuel x
          >>= e.resume (climbing policy) n clock' fuel')
        (e.runFor (climbing policy) (k + n) clock'' fuel'' x)) ∧
    ∀ {K : Type} [Field K] [LinearOrder K] [IsStrictOrderedRing K] [Elementary K] [Solution K X]
      {e : Engine K X ω}, e.Deaf →
      e.Total (climbing EpsilonGreedy.policy : Methods K X _ α (Stopping (Limit K))) →
      ∀ {w : Setting K (Parts X ω (Scheme K (EpsilonGreedy K)) α (Stopping (Limit K)))} {x : X}
        {coupling : Coupling}, Scheme.Reachable X w.own.scheme →
      e.prepare w.own.scheme.coupling (some x) = .ok (x, coupling) →
      ∀ {k n fuel fuel' fuel'' : Nat}, k < fuel → n < fuel' → k + n < fuel'' →
      ∀ clock clock' clock'' : Nat → Int, ∃ p q r v u,
        result (e.runFor (climbing EpsilonGreedy.policy) k clock fuel x
          >>= e.resume (climbing EpsilonGreedy.policy) n clock' fuel') w = (.ok (some (p, q)), v) ∧
        result (e.runFor (climbing EpsilonGreedy.policy) (k + n) clock'' fuel'' x) w
          = (.ok (some r), u) ∧
        Resumes p q r ∧ Setting.Over Parts.Alongside v u := by
  constructor
  · intro K π _ _ _ e policy hlinear hpolicy he k n fuel fuel' fuel'' hfuel hfuel' hfuel''
      clock clock' clock'' x
    have hclimbs : e.Climbs (climbing policy : Methods K X (Scheme K π) α _) :=
      ⟨hlinear, he, Scheme.selector_oblivious hpolicy, rfl, rfl⟩
    exact hclimbs.agree_resume clock clock' clock'' hfuel hfuel' hfuel'' x
  · intro K _ _ _ _ _ e he htotal w x coupling hreachable hready k n fuel fuel' fuel'' hfuel hfuel'
      hfuel'' clock clock' clock''
    have hclimbs : e.Climbs (climbing EpsilonGreedy.policy : Methods K X _ α _) :=
      ⟨Solution.linear_of_linearOrder, he, Scheme.selector_oblivious EpsilonGreedy.policy_deaf,
        rfl, rfl⟩
    have hunbroken : e.Unbroken (climbing EpsilonGreedy.policy) clock'' (some x)
        (w.limitedTo (k + n)) := unbroken_of_total rfl hreachable hready htotal
    obtain ⟨r, u, hr⟩ := hunbroken.stopsBy (n := k + n)
      (fun hrounds => (hrounds.spanned rfl rfl).1) fuel'' hfuel''
    rw [← result_runFor] at hr
    obtain ⟨hmatch, hafter⟩ := hclimbs.agree_resume clock clock' clock'' hfuel hfuel' hfuel'' x
      (⟨⟨rfl, rfl, rfl, rfl⟩, rfl⟩ : Setting.Over Parts.Alongside w w)
    rcases htwo : result (e.runFor (climbing EpsilonGreedy.policy) k clock fuel x
      >>= e.resume (climbing EpsilonGreedy.policy) n clock' fuel') w with ⟨res, v⟩
    rw [htwo, hr] at hmatch hafter
    cases hmatch with
    | ok hresumed =>
      obtain ⟨p, q, r, rfl, hr', hresumes⟩ := hresumed
      cases hr'
      exact ⟨p, q, r, v, u, rfl, hr, hresumes, hafter⟩

namespace Countdown

theorem deaf_engine : (engine : Engine ℝ (Level ℝ) Unit).Deaf where
  destroy := by
    intro op hop x
    rw [item_of_mem_destroy hop]
    exact .pure rfl
  repair := by
    intro op hop x
    rw [item_of_mem_repair hop]
    exact .pure rfl
  onBest := fun _ hop => absurd hop (by simp [engine])

theorem total_climbing : (engine : Engine ℝ (Level ℝ) Unit).Total
    (Engine.climbing EpsilonGreedy.policy : Methods ℝ (Level ℝ) _ Unit _) :=
  { total_engine (Scheme.selector EpsilonGreedy.policy) with
    rule := fun _ _ _ _ => ⟨_, _, rfl⟩
    criterion := fun _ _ _ _ => ⟨_, _, rfl⟩ }

end Countdown

open Countdown in
/-- Counting down by one and then by two more is counting down by three. -/
theorem hill_climbing_resumed_countdown :
    Agree (Setting.Over Parts.Alongside) Engine.Resumed
      (engine.runFor (Engine.climbing EpsilonGreedy.policy : Methods ℝ (Level ℝ) _ Unit _) 1
          (fun n => (n : Int)) 2 ⟨5⟩
        >>= engine.resume (Engine.climbing EpsilonGreedy.policy) 2 (fun n => (n : Int)) 3)
      (engine.runFor (Engine.climbing EpsilonGreedy.policy) 3 (fun n => (n : Int)) 4 ⟨5⟩) ∧
    ∃ p q r v u,
      result (engine.runFor (Engine.climbing EpsilonGreedy.policy) 1 (fun n => (n : Int)) 2 ⟨5⟩
          >>= engine.resume (Engine.climbing EpsilonGreedy.policy) 2 (fun n => (n : Int)) 3)
        (rooted (.roulette wheel) () tree) = (.ok (some (p, q)), v) ∧
      result (engine.runFor (Engine.climbing EpsilonGreedy.policy) 3 (fun n => (n : Int)) 4 ⟨5⟩)
        (rooted (.roulette wheel) () tree) = (.ok (some r), u) ∧
      Engine.Resumes p q r ∧ Setting.Over Parts.Alongside v u :=
  ⟨Engine.hill_climbing_resumed.1 Solution.linear_of_linearOrder EpsilonGreedy.policy_deaf
      deaf_engine (by decide) (by decide) (by decide) _ _ _ _,
    Engine.hill_climbing_resumed.2 (w := rooted (.roulette wheel) () tree) deaf_engine
      total_climbing reachable_wheel (prepare_countdown (⟨5⟩ : Level ℝ)) (by decide) (by decide)
      (by decide) _ _ _⟩

end LargeNeighbourhood
