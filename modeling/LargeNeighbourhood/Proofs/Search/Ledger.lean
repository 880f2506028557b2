/-
# The record of a run is exact

Three keep books about a run: its record, by the names of the operators; the scheme, by pairs or by
arms; and the loop, which counts its iterations by their times.  They agree, because each round
writes the outcome of its pair once in each of them, and because a registered name stands for one
operator: an engine is put together by registrations (`Engine.Assembled`), so its names are
distinct.

* `Engine.Ledger`: the record of a run that was stopped, read off its rounds.
* `Registry.Counted`: a tally has the uses of each operator under its name, and nothing else.
* `Engine.Agrees`: the pulls of a scheme over the partners of an operator add up to the counts under
  its name.
-/
import Mathlib
import LargeNeighbourhood.Proofs.Search.Permitted
import LargeNeighbourhood.Proofs.Search.Registration
import LargeNeighbourhood.Proofs.Selection.Pulls
import LargeNeighbourhood.Proofs.Tally

namespace LargeNeighbourhood

open Act

/-! ## 1. Engines that can be put together -/

/-- A new engine, and what registrations, taken or refused, and a callback make of one. -/
inductive Engine.Assembled {K X ω : Type} : Engine K X ω → Prop
  | new (verbose : Bool) : Assembled { verbose }
  | register (call : Registration K X ω) {w : Setting K (Engine K X ω)} (h : Assembled w.own) :
      Assembled (result call.act w).2.own
  | setOnBest (op? : Option (Operator K X ω)) {w : Setting K (Engine K X ω)}
      (h : Assembled w.own) : Assembled (result (Engine.setOnBest op?) w).2.own
  | setVerbose (verbose : Bool) {e : Engine K X ω} (h : Assembled e) : Assembled { e with verbose }

/-- Each name stands for one operator. -/
theorem Engine.Assembled.nodup {K X ω : Type} {e : Engine K X ω} (h : e.Assembled) :
    e.destroy.names.Nodup ∧ e.repair.names.Nodup := by
  induction h with
  | new verbose => exact ⟨List.nodup_nil, List.nodup_nil⟩
  | @register call w h ih =>
    rcases Registration.act_cases call w with ⟨-, -, -, f, hact, -⟩ | ⟨-, known, lines, hact⟩
    · rw [hact]
      exact ih
    · rw [hact]
      exact ⟨Registry.nodup_names_insertAll ih.1 _, Registry.nodup_names_insertAll ih.2 _⟩
  | @setOnBest op? w h ih =>
    cases op? with
    | none => exact ih
    | some op =>
      simp only [Engine.setOnBest, result_bind, result_own, result_sayIf, result_become]
      exact ih
  | setVerbose verbose h ih => exact ih

/-- A history of registrations puts an engine together. -/
theorem Engine.Assembled.registerAll {K X ω : Type} {w : Setting K (Engine K X ω)}
    (h : w.own.Assembled) (history : List (Registration K X ω)) :
    (Registration.registerAll history w).own.Assembled := by
  induction history generalizing w with
  | nil => exact h
  | cons call history ih => exact ih (h.register call)

/-! ## 2. Tallies of operators -/

/-- A tally counts the uses of the operators of a registry under their names, and nothing else. -/
structure Registry.Counted {α : Type} (r : Registry α) (t : Tally) (uses : List (Nat × Outcome)) :
    Prop where
  count : ∀ i op, r.entries[i]? = some op → ∀ o, t.count op.name o = uses.count (i, o)
  entry : ∀ name, (t.find? name).isSome = true ↔
    ∃ i op, r.entries[i]? = some op ∧ op.name = name ∧ i ∈ uses.map Prod.fst
  size : t.size = uses.length
  sum : ∀ o, t.sum o = (uses.map Prod.snd).count o

namespace Registry

variable {α : Type} {r : Registry α} {t : Tally} {uses : List (Nat × Outcome)}

/-- All counts under a name are the uses of its operator. -/
theorem Counted.total (h : r.Counted t uses) {i : Nat} {op : Entry α}
    (hop : r.entries[i]? = some op) : t.total op.name = (uses.map Prod.fst).count i := by
  rw [Tally.total_eq, Tally.count_keys]
  simp only [h.count i op hop]

/-- Uses that are recorded by name are counted by operator, since names are distinct. -/
theorem counted_ofEvents (hnodup : r.names.Nodup) (hlt : ∀ u ∈ uses, u.1 < r.entries.length) :
    r.Counted (Tally.ofEvents (uses.map fun u => (r.nameAt u.1, u.2))) uses := by
  have hentry : ∀ u ∈ uses, ∃ op, r.entries[u.1]? = some op ∧ op.name = r.nameAt u.1 := by
    intro u hu
    refine ⟨_, List.getElem?_eq_getElem (hlt u hu), ?_⟩
    rw [nameAt, List.getElem?_eq_getElem (hlt u hu)]
    rfl
  refine ⟨?_, ?_, ?_, ?_⟩
  · intro i op hop o
    rw [Tally.count_ofEvents, List.count_eq_countP, List.countP_map, List.count_eq_countP]
    refine List.countP_congr fun u hu => ?_
    obtain ⟨op', hop', hname⟩ := hentry u hu
    obtain ⟨j, p⟩ := u
    simp only [Function.comp, beq_iff_eq, Prod.mk.injEq] at hop' hname ⊢
    constructor
    · rintro ⟨hsame, rfl⟩
      exact ⟨nameAt_inj hnodup hop hop' (hname.trans hsame), rfl⟩
    · rintro ⟨rfl, rfl⟩
      rw [hop, Option.some.injEq] at hop'
      exact ⟨by rw [← hname, hop'], rfl⟩
  · intro name
    rw [Tally.find?_ofEvents_isSome, List.map_map]
    constructor
    · intro hname
      obtain ⟨u, hu, rfl⟩ := List.mem_map.1 hname
      obtain ⟨op, hop, hname⟩ := hentry u hu
      exact ⟨u.1, op, hop, hname, List.mem_map_of_mem hu⟩
    · rintro ⟨i, op, hop, rfl, hi⟩
      obtain ⟨u, hu, rfl⟩ := List.mem_map.1 hi
      refine List.mem_map.2 ⟨u, hu, ?_⟩
      simp [nameAt, hop]
  · rw [Tally.size_ofEvents, List.length_map]
  · intro o
    rw [Tally.sum_ofEvents, List.map_map]
    rfl

end Registry

/-! ## 3. The record -/

namespace Engine

/-- The record of a run that went through some rounds. -/
structure Ledger {K X ω : Type} [Solution K X] [LT K] [DecidableLT K] (e : Engine K X ω)
    (initial : X) (rounds : List (Round X)) (statistics : Statistics K) : Prop where
  objectives : statistics.objectives.toList
    = objective initial :: rounds.map fun r => objective r.nextCurrent
  iterations : statistics.iterations = rounds.length
  destroys : e.destroy.Counted statistics.destroyCounts
    (rounds.map fun r => (r.pair.1, r.outcome))
  repairs : e.repair.Counted statistics.repairCounts (rounds.map fun r => (r.pair.2, r.outcome))
  agree : ∀ o, statistics.destroyCounts.sum o = statistics.repairCounts.sum o

section Record

variable {K X ω σ α τ : Type} [Solution K X] [LT K] [DecidableLT K]
variable {e : Engine K X ω} {m : Methods K X σ α τ} {coupling : Coupling} {clock : Nat → Int}
  {p q : Progress K X} {w v u : Setting K (Parts X ω σ α τ)} {rounds : List (Round X)}

omit [LT K] [DecidableLT K] in
/-- Of either kind of operators the uses of a run are counted by name. -/
theorem counted_rounds [LT K] [DecidableLT K] {α : Type} {registry : Registry α}
    (hnodup : registry.names.Nodup) (use : Round X → Nat)
    (hlt : ∀ r ∈ rounds, use r < registry.entries.length) :
    registry.Counted (Tally.ofEvents (rounds.map fun r => (registry.nameAt (use r), r.outcome)))
      (rounds.map fun r => (use r, r.outcome)) := by
  have huses : ∀ u ∈ rounds.map fun r => (use r, r.outcome), u.1 < registry.entries.length := by
    intro u hu
    obtain ⟨r, hr, rfl⟩ := List.mem_map.1 hu
    exact hlt r hr
  have hcounted := Registry.counted_ofEvents hnodup huses
  rw [List.map_map] at hcounted
  exact hcounted

/-- **The record of a run is its ledger.** -/
theorem Rounds.ledger {initial : X}
    (h : e.Rounds m coupling clock (opening (clock 0) initial) w rounds q u)
    (hc : e.Covers coupling) (he : e.Assembled) : e.Ledger initial rounds q.statistics := by
  have hopening : (opening (clock 0) initial : Progress K X).statistics
      = { objectives := #[objective initial], start? := some (clock 0),
          last? := some (clock 0) } := rfl
  obtain ⟨hobjectives, -, hdestroy, hrepair⟩ := h.recorded rfl
  rw [hopening] at hobjectives hdestroy hrepair
  have hdestroys : e.destroy.Counted q.statistics.destroyCounts
      (rounds.map fun r => (r.pair.1, r.outcome)) := by
    rw [hdestroy]
    exact counted_rounds he.nodup.1 _ fun r hr => hc.destroy_lt _ _ (h.permitted r hr)
  have hrepairs : e.repair.Counted q.statistics.repairCounts
      (rounds.map fun r => (r.pair.2, r.outcome)) := by
    rw [hrepair]
    exact counted_rounds he.nodup.2 _ fun r hr => hc.repair_lt _ _ (h.permitted r hr)
  refine ⟨hobjectives, h.iterations_eq, hdestroys, hrepairs, ?_⟩
  intro o
  rw [hdestroys.sum, hrepairs.sum, List.map_map, List.map_map]
  rfl

end Record

/-! ## 4. What the scheme learned -/

section Learning

variable {K X ω σ α τ : Type}
variable {e : Engine K X ω} {m : Methods K X σ α τ} {coupling : Coupling} {clock : Nat → Int}
  {now : Int} {w v u : Setting K (Parts X ω σ α τ)}
  {Holds : List (Nat × Nat) → σ → Prop} {pairs : List (Nat × Nat)}

theorem Exchanged.selected {b c : X} {pair : Pair}
    (h : e.Exchanged m now w ⟨.select b c, .pair pair⟩ v) :
    ∃ rng lines z, result (m.selector.select b c) ⟨w.own.scheme, rng, lines⟩ = (.ok pair, z) ∧
      v.own.scheme = z.own := by
  obtain ⟨said, h⟩ := h
  obtain ⟨pair', z, hp, hz, hown⟩ := map_on_ok h
  cases hp
  exact ⟨_, _, z, hz, congrArg Parts.scheme hown⟩

theorem Exchanged.told {y : X} {pair : Pair} {o : Outcome}
    (h : e.Exchanged m now w ⟨.update y pair o, .noted⟩ v) :
    ∃ rng lines z, result (m.selector.update y pair o) ⟨w.own.scheme, rng, lines⟩ = (.ok (), z) ∧
      v.own.scheme = z.own := by
  obtain ⟨said, h⟩ := h
  obtain ⟨⟨⟩, z, -, hz, hown⟩ := map_on_ok h
  exact ⟨_, _, z, hz, congrArg Parts.scheme hown⟩

variable [Solution K X] [LT K] [DecidableLT K] {p q : Progress K X} {rounds : List (Round X)}
  {r : Round X}

/-- Between the choice of a pair and the report the scheme is left alone. -/
theorem Round.exchanges_eq_report (r : Round X) :
    ∃ between : List (Exchange X), r.exchanges =
      [⟨.shouldStop r.best r.current, .verdict false⟩,
        ⟨.select r.best r.current, .pair (Pair.ofNat r.pair)⟩] ++ between ++
        [⟨.update r.candidate (Pair.ofNat r.pair) r.outcome, .noted⟩] ∧
      ∀ x ∈ between, x.call.Keeps (Parts.scheme : Parts X ω σ α τ → σ) := by
  refine ⟨[⟨.destroy r.pair.1 r.current, .solution (some r.destroyed)⟩,
    ⟨.repair r.pair.2 r.destroyed, .solution (some r.candidate)⟩,
    ⟨.accept r.best r.current r.candidate, .verdict r.accepted⟩] ++ r.polishing, ?_, ?_⟩
  · simp [Round.exchanges]
  · cases hz : r.polished? <;> simp [Round.polishing, hz, keeps_scheme]

/-- A round reports its pair, once. -/
theorem Performs.learned (hl : Learns m.selector Holds)
    (h : e.Performs m now w r.exchanges v) (hw : Holds pairs w.own.scheme) :
    Holds (pairs ++ [r.pair]) v.own.scheme := by
  obtain ⟨between, hscript, hkeeps⟩ := Round.exchanges_eq_report (ω := ω) (σ := σ) (α := α)
    (τ := τ) r
  rw [hscript] at h
  obtain ⟨z, hbefore, hreport⟩ := h.split
  obtain ⟨y, hfirst, hbetween⟩ := hbefore.split
  have hy : Holds pairs y.own.scheme := by
    cases hfirst with
    | cons hstop hselect =>
      cases hselect with
      | cons hselect hend =>
        cases hend
        obtain ⟨rng, lines, s, hs, hown⟩ := hselect.selected
        rw [hown]
        refine hl.select ?_ hs
        rw [hstop.keeps (keeps_scheme (by simp) (by simp))]
        exact hw
  have hz : Holds pairs z.own.scheme := by
    rw [hbetween.keeps (fun _ _ => rfl) hkeeps]
    exact hy
  cases hreport with
  | cons hreport hend =>
    cases hend
    obtain ⟨rng, lines, s, hs, hown⟩ := hreport.told
    rw [hown]
    exact hl.update hz hs

/-- **A scheme learns the pairs of its run.** -/
theorem Rounds.learned (hl : Learns m.selector Holds)
    (h : e.Rounds m coupling clock p w rounds q u) (hw : Holds pairs w.own.scheme) :
    Holds (pairs ++ rounds.map Round.pair) u.own.scheme := by
  induction h generalizing pairs with
  | nil =>
    rw [List.map_nil, List.append_nil]
    exact hw
  | @cons p w r v said rounds q u best current lawful performed rest ih =>
    have hv := performed.learned hl hw
    have hnext := ih hv
    rw [List.append_assoc] at hnext
    exact hnext

/-- A run that is not broken off leaves its scheme as its rounds did. -/
theorem Ends.scheme_eq {tail : List (Exchange X)} {broken? : Option (Call X)}
    {p? : Option (Progress K X)} (h : e.Ends m coupling clock q u tail broken? (.ok p?) v) :
    v.own.scheme = u.own.scheme := by
  cases h with
  | stopped asked => exact asked.keeps (keeps_scheme (by simp) (by simp))
  | exhausted => rfl

end Learning

/-! ## 5. All books agree -/

/-- What a scheme counted for the pairs of an operator adds up to what is recorded under the
operator's name. -/
structure Agrees {K X ω : Type} (e : Engine K X ω) (statistics : Statistics K) (c : Coupling)
    (pulls : Nat × Nat → Nat) : Prop where
  destroy : ∀ d op, e.destroy.entries[d]? = some op →
    ((c.partners d).map fun r => pulls (d, r)).sum = statistics.destroyCounts.total op.name
  repair : ∀ r op, e.repair.entries[r]? = some op →
    ((c.predecessors r).map fun d => pulls (d, r)).sum = statistics.repairCounts.total op.name

variable {K X ω : Type} [Scalar K] [Elementary K] [Solution K X]

omit [Elementary K] in
theorem Ledger.agrees {e : Engine K X ω} {initial : X} {rounds : List (Round X)}
    {statistics : Statistics K} {c : Coupling} {pulls : Nat × Nat → Nat}
    (h : e.Ledger initial rounds statistics) (ht : Tells c pulls (rounds.map Round.pair)) :
    e.Agrees statistics c pulls where
  destroy := by
    intro d op hop
    rw [ht.sum_partners, h.destroys.total hop, List.map_map, List.count_eq_countP,
      List.countP_map, List.countP_map]
    refine List.countP_congr fun r _ => ?_
    simp
  repair := by
    intro r op hop
    rw [ht.sum_predecessors, h.repairs.total hop, List.map_map, List.count_eq_countP,
      List.countP_map, List.countP_map]
    refine List.countP_congr fun r _ => ?_
    simp

/-- **The books of a run are exact.**  The record of a run that was stopped is the ledger of its
rounds, whatever its collaborators are.  If the scheme is a new confidence bound, then it counted
as many reports as there were iterations, and for the pairs of every operator as many as are
recorded under its name; and so did the policy of a new bandit. -/
theorem exact_ledgers {e : Engine K X ω} (he : e.Assembled) {clock : Nat → Int} {fuel : Nat}
    {initial? : Option X} {initial : X} {coupling : Coupling} {p : Progress K X} :
    (∀ {σ α τ : Type} {m : Methods K X σ α τ} {w v : Setting K (Parts X ω σ α τ)},
      e.prepare (m.selector.coupling w.own.scheme) initial? = .ok (initial, coupling) →
      result (e.run m clock fuel initial?) w = (.ok (some p), v) →
      ∃ rounds tail, e.Account m coupling clock initial w rounds tail none (.ok (some p)) v ∧
        e.Ledger initial rounds p.statistics) ∧
    ∀ {α τ : Type} {m : Methods K X (Scheme K (EpsilonGreedy K)) α τ}
      {w v : Setting K (Parts X ω (Scheme K (EpsilonGreedy K)) α τ)},
      m.selector = Scheme.selector EpsilonGreedy.policy →
      e.prepare w.own.scheme.coupling initial? = .ok (initial, coupling) →
      result (e.run m clock fuel initial?) w = (.ok (some p), v) →
      (∀ {scores alpha numDestroy numRepair coupling? s},
        ConfidenceBound.make scores alpha numDestroy numRepair coupling? = .ok s →
        w.own.scheme = .confidenceBound s →
        ∃ t, v.own.scheme = .confidenceBound t ∧ t.coupling = s.coupling ∧
          t.iteration = p.statistics.iterations ∧ e.Agrees p.statistics t.coupling t.pulls) ∧
      ∀ {scores numDestroy numRepair policy? coupling? s},
        ArmSelector.make EpsilonGreedy.policy scores numDestroy numRepair policy? coupling?
          = .ok s →
        w.own.scheme = .bandit s →
        ∃ t, v.own.scheme = .bandit t ∧ t.coupling = s.coupling ∧
          e.Agrees p.statistics t.coupling t.pulls := by
  have course : ∀ {σ α τ : Type} {m : Methods K X σ α τ} {w v : Setting K (Parts X ω σ α τ)},
      e.prepare (m.selector.coupling w.own.scheme) initial? = .ok (initial, coupling) →
      result (e.run m clock fuel initial?) w = (.ok (some p), v) →
      ∃ said rounds q u tail,
        e.Rounds m coupling clock (opening (clock 0) initial) (w.saying said) rounds q u ∧
        e.Ends m coupling clock q u tail none (.ok (some p)) v ∧
        e.Account m coupling clock initial w rounds tail none (.ok (some p)) v ∧
        e.Ledger initial rounds p.statistics := by
    intro σ α τ m w v ready hrun
    obtain ⟨rounds, tail, broken?, haccount, -⟩ := exists_account ready hrun
    obtain ⟨said, q, u, hrounds, hends⟩ := haccount.course
    cases hends with
    | stopped asked =>
      have hledger := hrounds.ledger (ready_of_prepare ready).2.covers he
      exact ⟨said, rounds, _, u, _, hrounds, .stopped asked, haccount, hledger⟩
  refine ⟨?_, ?_⟩
  · intro σ α τ m w v ready hrun
    obtain ⟨said, rounds, q, u, tail, -, -, haccount, hledger⟩ := course ready hrun
    exact ⟨rounds, tail, haccount, hledger⟩
  · intro α τ m w v hm ready hrun
    have hready : e.prepare (m.selector.coupling w.own.scheme) initial?
        = .ok (initial, coupling) := by
      rw [hm]
      exact ready
    obtain ⟨said, rounds, q, u, tail, hrounds, hends, -, hledger⟩ := course hready hrun
    constructor
    · intro scores alpha numDestroy numRepair coupling? s hmake hw
      have hlearns : Learns m.selector _ := hm ▸ Scheme.learns_confidenceBound s.coupling
      obtain ⟨t, ht, hcoupling, hlearned⟩ :=
        hrounds.learned hlearns ⟨s, hw, rfl, ConfidenceBound.learned_of_make hmake⟩
      refine ⟨t, hends.scheme_eq.trans ht, hcoupling, ?_, hledger.agrees hlearned.tells⟩
      rw [hlearned.iteration_eq, hledger.iterations, List.nil_append, List.length_map]
    · intro scores numDestroy numRepair policy? coupling? s hmake hw
      have hlearns : Learns m.selector _ := hm ▸ Scheme.learns_bandit s.coupling
      obtain ⟨t, ht, hcoupling, hlearned⟩ :=
        hrounds.learned hlearns ⟨s, hw, rfl, ArmSelector.learned_of_make hmake⟩
      exact ⟨t, hends.scheme_eq.trans ht, hcoupling, hledger.agrees hlearned.tells⟩

end Engine

namespace Countdown

theorem assembled_engine {K : Type} [Sub K] [One K] :
    (engine : Engine K (Level K) Unit).Assembled := by
  have hnew : Engine.Assembled (K := K) (X := Level K) (ω := Unit) { verbose := false } :=
    .new false
  have h := hnew.registerAll (w := ⟨_, ⟨0, 1⟩, #[]⟩) [.destroy "keep" (some keep),
    .destroy "hold" (some keep), .repair "lower" (some lower) [],
    .repair "drop" (some lower) ["keep"]]
  rw [Registration.own_registerAll] at h
  with_unfolding_all exact h

/-- A new confidence bound for the pairs that may be combined. -/
noncomputable def bound : ConfidenceBound ℝ where
  scores := ⟨3, 2, 1, 0, []⟩
  alpha := 1
  table := PairTable.ofCoupling permitted usable_permitted
  iteration := 0
  means := Array.replicate (permitted.numDestroy * permitted.numRepair) 1
  counts := Array.replicate (permitted.numDestroy * permitted.numRepair) 0
  size_means := Array.size_replicate
  size_counts := Array.size_replicate

theorem make_bound :
    ConfidenceBound.make (K := ℝ) [3, 2, 1, 0] 1 2 2 (some permitted) = .ok bound := by
  have hscores : Scores.ofList ([3, 2, 1, 0] : List ℝ) = .ok bound.scores := by
    norm_num [Scores.ofList, bound]
  rw [ConfidenceBound.make, forScheme_permitted]
  simp only [Checks.bind_ok_iff, Checks.guard_ok_iff, Checks.pure_ok_iff]
  exact ⟨_, rfl, _, hscores, by simp [Scalar.within], rfl⟩

end Countdown

open Countdown in
/-- A countdown from two is stopped after two rounds, has a ledger, and its confidence bound, which
counted both reports, agrees with it. -/
theorem exact_ledgers_bound : ∃ p v,
    result (engine.run (methods (Scheme.selector EpsilonGreedy.policy) everyLevel 1)
      (fun n => (n : Int)) 3 (some ⟨2⟩)) (setting (.confidenceBound bound) ())
        = (.ok (some p), v) ∧
    (∃ rounds, (engine : Engine ℝ (Level ℝ) Unit).Ledger ⟨2⟩ rounds p.statistics ∧
      rounds.length = 2) ∧
    ∃ t, v.own.scheme = .confidenceBound t ∧ t.coupling = permitted ∧ t.iteration = 2 ∧
      (engine : Engine ℝ (Level ℝ) Unit).Agrees p.statistics permitted t.pulls := by
  have hturning := (Scheme.Reachable.confidenceBound (X := Level ℝ) make_bound).turning.1
  obtain ⟨p, v, hrun, -, -, hcount⟩ := run_from_two (K := ℝ)
    (w := setting (Scheme.confidenceBound bound) ()) supplies_scheme judges_everyLevel
    ⟨hturning, rfl⟩ True.intro
  have hready := prepare_countdown (⟨2⟩ : Level ℝ)
  obtain ⟨hrecord, hlearned⟩ := @Engine.exact_ledgers ℝ (Level ℝ) Unit _ _ _ engine
    assembled_engine (fun n => (n : Int)) 3 (some ⟨2⟩) ⟨2⟩ permitted p
  obtain ⟨rounds, -, -, hledger⟩ := hrecord hready hrun
  obtain ⟨t, ht, hcoupling, hiteration, hagrees⟩ :=
    (hlearned (w := setting (.confidenceBound bound) ()) rfl hready hrun).1 make_bound rfl
  rw [hcoupling] at hagrees
  exact ⟨p, v, hrun, ⟨rounds, hledger, hledger.iterations.symm.trans hcount⟩, t, ht, hcoupling,
    hiteration.trans hcount, hagrees⟩

end LargeNeighbourhood
