/-
# Only permitted pairs are applied

Three things come together here.  A scheme of the library, in a state it can be in, proposes a
legal pair.  A run with such a scheme is broken off by others only (`BlamesOthers`): no pair is
refused, and no operator is looked up in vain.  And the operators are applied in the order that
the registrations permit (`RepairsFollow`): what a repair operator gets was made by the destroy
operator called just before, and it may follow that one.

The last is a matter of the calls alone.  In one round the call to the repair operator is the
fourth and that to the destroy operator the third, and a round that is broken off has made a
beginning of these calls; so it holds of the calls of a run, which are those of its rounds one
after another.
-/
import Mathlib
import LargeNeighbourhood.Proofs.Acceptance.NewBest
import LargeNeighbourhood.Proofs.Search.Blame

namespace LargeNeighbourhood

open Act

namespace Engine

/-! ## 1. Repair operators follow destroy operators -/

section Order

variable {K X ω σ α τ : Type}

/-- The repair operator at an index may follow the destroy operator at another: it has no set of
destroy operators, or this one is in its set. -/
def MayFollow (e : Engine K X ω) (d r : Nat) : Prop :=
  ∃ destroy repair, e.destroy.entries[d]? = some destroy ∧ e.repair.entries[r]? = some repair ∧
    ∀ set, e.onlyAfter.find? repair.name = some set → destroy.name ∈ set

/-- Whenever a repair operator is called, the call before was to a destroy operator that it may
follow, and the solution it gets is the answer of that call. -/
def RepairsFollow (e : Engine K X ω) (xs : List (Exchange X)) (broken? : Option (Call X)) :
    Prop :=
  ∀ i r y, (xs.map Exchange.call ++ broken?.toList)[i]? = some (.repair r y) →
    ∃ j d x, i = j + 1 ∧ xs[j]? = some ⟨.destroy d x, .solution (some y)⟩ ∧ e.MayFollow d r

variable {e : Engine K X ω} {xs ys : List (Exchange X)} {broken? : Option (Call X)}

/-- A pair that the registrations permit. -/
theorem mayFollow_of_allows {d r : Nat} (h : e.matrix.allows d r = true) : e.MayFollow d r := by
  obtain ⟨-, -, h⟩ := Coupling.allows_ofRule_iff.1 h
  obtain ⟨_, _, hd, hr, hpermits⟩ := permits_iff.1 h
  rw [Registry.names, List.getElem?_map, Option.map_eq_some_iff] at hd hr
  obtain ⟨destroy, hd, rfl⟩ := hd
  obtain ⟨repair, hr, rfl⟩ := hr
  exact ⟨destroy, repair, hd, hr, hpermits⟩

theorem RepairsFollow.nil : e.RepairsFollow [] none := by
  intro i r y h
  exact absurd h (by simp)

/-- Calls in the permitted order go on in it. -/
theorem RepairsFollow.append (h : e.RepairsFollow xs none) (h' : e.RepairsFollow ys broken?) :
    e.RepairsFollow (xs ++ ys) broken? := by
  intro i r y hi
  rw [List.map_append, List.append_assoc] at hi
  rcases Nat.lt_or_ge i xs.length with hlt | hge
  · rw [List.getElem?_append_left (by simpa using hlt)] at hi
    obtain ⟨j, d, x, rfl, hj, hfollow⟩ := h i r y (by simpa using hi)
    refine ⟨j, d, x, rfl, ?_, hfollow⟩
    rw [List.getElem?_append_left (by omega)]
    exact hj
  · rw [List.getElem?_append_right (by simpa using hge), List.length_map] at hi
    obtain ⟨j, d, x, hij, hj, hfollow⟩ := h' _ r y hi
    refine ⟨xs.length + j, d, x, by omega, ?_, hfollow⟩
    rw [List.getElem?_append_right (by omega), Nat.add_sub_cancel_left]
    exact hj

variable [Solution K X] [LT K] [DecidableLT K]

/-- The only call of a round to a repair operator is the fourth. -/
theorem repair_at (k : Round X) {i r : Nat} {y : X}
    (h : (k.exchanges.map Exchange.call)[i]? = some (.repair r y)) :
    i = 3 ∧ r = k.pair.2 ∧ y = k.destroyed := by
  match i, h with
  | 3, h =>
    simp only [Round.exchanges, List.cons_append, List.map_cons, List.getElem?_cons_succ,
      List.getElem?_cons_zero, Option.some.injEq, Call.repair.injEq] at h
    exact ⟨rfl, h.1.symm, h.2.symm⟩
  | 0, h | 1, h | 2, h | 4, h => exact absurd h (by simp [Round.exchanges])
  | i + 5, h =>
    -- past the question to the criterion there are only the callback and the report
    have hmem : Call.repair r y ∈ k.concluding.map Exchange.call := List.mem_of_getElem? h
    exact absurd hmem (by simp [Round.concluding, Round.polishing])

/-- The beginning of a round with a permitted pair. -/
theorem repairsFollow_of_begun {k : Round X} (hk : e.MayFollow k.pair.1 k.pair.2)
    (hxs : xs <+: k.exchanges)
    (hcalls : xs.map Exchange.call ++ broken?.toList <+: k.exchanges.map Exchange.call) :
    e.RepairsFollow xs broken? := by
  intro i r y hi
  obtain ⟨hlt, hcall⟩ := List.getElem?_eq_some_iff.1 hi
  have hat := List.prefix_iff_getElem?.1 hcalls i hlt
  rw [hcall] at hat
  obtain ⟨rfl, rfl, rfl⟩ := repair_at k hat
  have hbroken : broken?.toList.length ≤ 1 := by
    cases broken? <;> simp
  have hthree : 2 < xs.length := by
    rw [List.length_append, List.length_map] at hlt
    omega
  refine ⟨2, k.pair.1, k.current, rfl, ?_, hk⟩
  rw [List.getElem?_eq_getElem hthree, ← List.prefix_iff_getElem?.1 hxs 2 hthree]
  rfl

variable {m : Methods K X σ α τ} {coupling : Coupling} {clock : Nat → Int}
  {p q : Progress K X} {w v u : Setting K (Parts X ω σ α τ)} {rounds : List (Round X)}
  {tail : List (Exchange X)} {res : Except (Fault K) (Option (Progress K X))} {initial : X}

/-- The pairs of a run are permitted. -/
theorem Rounds.permitted (h : e.Rounds m coupling clock p w rounds q u) :
    ∀ r ∈ rounds, coupling.allows r.pair.1 r.pair.2 = true := by
  induction h with
  | nil => exact fun r hr => absurd hr List.not_mem_nil
  | cons best current lawful performed rest ih =>
    exact List.forall_mem_cons.2 ⟨lawful.permitted, ih⟩

theorem Rounds.repairsFollow (h : e.Rounds m coupling clock p w rounds q u)
    (hc : coupling = e.matrix) : e.RepairsFollow (rounds.flatMap Round.exchanges) none := by
  induction h with
  | nil => exact .nil
  | cons best current lawful performed rest ih =>
    have hfollow := mayFollow_of_allows (hc ▸ lawful.permitted)
    rw [List.flatMap_cons]
    exact (repairsFollow_of_begun hfollow (List.prefix_refl _) (by simp)).append ih

theorem Ends.repairsFollow (h : e.Ends m coupling clock q u tail broken? res v)
    (hc : coupling = e.matrix) : e.RepairsFollow tail broken? := by
  cases h with
  | stopped asked =>
    intro i r y hi
    exact absurd (List.mem_of_getElem? hi) (by simp)
  | exhausted => exact .nil
  | failed cut =>
    have hfollow := mayFollow_of_allows (hc ▸ cut.lawful.permitted)
    exact repairsFollow_of_begun hfollow cut.interrupted.scripted cut.interrupted.calls

/-- **In every run repair operators follow destroy operators** as the registrations permit. -/
theorem Account.repairsFollow
    (h : e.Account m coupling clock initial w rounds tail broken? res v)
    (hc : coupling = e.matrix) :
    e.RepairsFollow (rounds.flatMap Round.exchanges ++ tail) broken? := by
  obtain ⟨said, q, u, hrounds, hends⟩ := h.course
  exact (hrounds.repairsFollow hc).append (hends.repairsFollow hc)

end Order

/-! ## 2. Runs with a scheme of the library -/

section Schemes

variable {K X ω α τ : Type} [Field K] [LinearOrder K] [IsStrictOrderedRing K] [Elementary K]
  [Solution K X]

/-- The run went through the rounds and the calls of the tail, and then it called another than the
scheme, who has the fault. -/
def BlamesOthers (e : Engine K X ω) (m : Methods K X (Scheme K (EpsilonGreedy K)) α τ)
    (coupling : Coupling) (clock : Nat → Int) (initial : X)
    (w : Setting K (Parts X ω (Scheme K (EpsilonGreedy K)) α τ)) (rounds : List (Round X))
    (tail : List (Exchange X)) (broken? : Option (Call X)) (f : Fault K) : Prop :=
  ∃ said q u call z, broken? = some call ∧
    e.Rounds m coupling clock (opening (clock 0) initial) (w.saying said) rounds q u ∧
    e.Performs m (clock (2 * q.statistics.iterations + 1)) u tail z ∧
    e.Foreign m (clock (2 * q.statistics.iterations + 1)) z call f

variable {e : Engine K X ω} {m : Methods K X (Scheme K (EpsilonGreedy K)) α τ}
  {coupling : Coupling} {clock : Nat → Int}
  {w v : Setting K (Parts X ω (Scheme K (EpsilonGreedy K)) α τ)} {rounds : List (Round X)}
  {tail : List (Exchange X)} {broken? : Option (Call X)} {initial : X} {f : Fault K}

/-- A run that fails was broken off by others than a scheme that can select. -/
theorem Account.blamesOthers (hm : m.selector = Scheme.selector EpsilonGreedy.policy)
    (hw : KeepsTo w.own.scheme.coupling w) (ready : e.Ready w.own.scheme.coupling coupling)
    (h : e.Account m coupling clock initial w rounds tail broken? (.error f) v) :
    e.BlamesOthers m coupling clock initial w rounds tail broken? f := by
  obtain ⟨said, q, u, hrounds, hends⟩ := h.course
  have hu : KeepsTo w.own.scheme.coupling u :=
    hrounds.keepsTo hm ⟨hw.turning, hw.coupling_eq, hw.usable⟩
  cases hends with
  | failed cut =>
    obtain ⟨z, hperf, hforeign⟩ := cut.foreign hm hu ready
    exact ⟨said, q, u, _, z, rfl, hrounds, hperf, hforeign⟩

/-- **Only permitted pairs are applied, and no scheme of the library gets stuck.**  A reachable
scheme proposes a legal pair.  A run with it is refused by the checks, and then changes nothing, or
it has an account: its rounds have permitted pairs, its repair operators follow as the
registrations permit, and if it fails then others have the fault.  A wheel whose coupling was
edited proposes a legal pair too, or stops at a destroy operator without partners. -/
theorem only_permitted :
    (∀ (current : X) {w : Setting K (Scheme K (EpsilonGreedy K))}, Scheme.Reachable X w.own →
      Scheme.Proposes w.own.coupling (result (Scheme.select EpsilonGreedy.policy current) w).1) ∧
    (∀ {e : Engine K X ω} {m : Methods K X (Scheme K (EpsilonGreedy K)) α τ} {clock : Nat → Int}
      {fuel : Nat} {initial? : Option X}
      {w v : Setting K (Parts X ω (Scheme K (EpsilonGreedy K)) α τ)}
      {res : Except (Fault K) (Option (Progress K X))},
      m.selector = Scheme.selector EpsilonGreedy.policy → Scheme.Reachable X w.own.scheme →
      result (e.run m clock fuel initial?) w = (res, v) →
      (∃ f, e.prepare w.own.scheme.coupling initial? = .error f ∧ res = .error f ∧ v = w ∧
        f.kind = .invalidArgument) ∨
      ∃ initial coupling rounds tail broken?,
        e.prepare w.own.scheme.coupling initial? = .ok (initial, coupling) ∧
        e.Account m coupling clock initial w rounds tail broken? res v ∧
        (∀ r ∈ rounds, coupling.allows r.pair.1 r.pair.2 = true) ∧
        e.RepairsFollow (rounds.flatMap Round.exchanges ++ tail) broken? ∧
        ∀ f, res = .error f →
          e.BlamesOthers m coupling clock initial w rounds tail broken? f) ∧
    ∀ (current : X) {w : Setting K (Scheme K (EpsilonGreedy K))}, Scheme.Edited X w.own →
      Scheme.Proposes w.own.coupling (result (Scheme.select EpsilonGreedy.policy current) w).1 ∨
      Scheme.Strands w.own.coupling (result (Scheme.select EpsilonGreedy.policy current) w).1 := by
  refine ⟨?_, ?_, ?_⟩
  · intro current w hreach
    obtain ⟨dr, v, hselect, hallow⟩ := hreach.select_ok current
    rw [hselect]
    exact ⟨dr, rfl, hallow⟩
  · intro e m clock fuel initial? w v res hm hreach hrun
    have hcoupling : m.selector.coupling w.own.scheme = w.own.scheme.coupling := by
      rw [hm]
      rfl
    rcases hp : e.prepare w.own.scheme.coupling initial? (K := K) with f | ⟨initial, coupling⟩
    · have hrefused : result (e.run m clock fuel initial?) w = (.error f, w) :=
        run_refused fuel (hcoupling ▸ hp)
      rw [hrun, Prod.mk.injEq] at hrefused
      exact Or.inl ⟨f, rfl, hrefused.1, hrefused.2, kind_of_refused hp⟩
    · have ready := (ready_of_prepare hp).2
      obtain ⟨rounds, tail, broken?, haccount, -⟩ := exists_account (hcoupling ▸ hp) hrun
      obtain ⟨hturning, husable⟩ := hreach.turning
      refine Or.inr ⟨initial, coupling, rounds, tail, broken?, rfl, haccount, ?_,
        haccount.repairsFollow ready.coupling_eq, ?_⟩
      · obtain ⟨said, q, u, hrounds, -⟩ := haccount.course
        exact hrounds.permitted
      · rintro f rfl
        exact haccount.blamesOthers hm ⟨hturning, rfl, husable⟩ ready
  · intro current w hedited
    obtain ⟨r, v, hselect, -, -, hr⟩ := Scheme.select_cases current hedited.turning
    rw [hselect]
    exact hr

end Schemes

end Engine

namespace Countdown

theorem usable_permitted : permitted.Usable := ⟨by decide, by decide, by decide⟩

theorem supplies_scheme {K : Type} [Field K] [LinearOrder K] [IsStrictOrderedRing K]
    [Elementary K] : Supplies (Scheme.selector EpsilonGreedy.policy : Selector K (Level K) _)
      fun s => s.Turning ∧ s.coupling = permitted where
  coupling := fun _ hs => hs.2
  select := by
    rintro best current w ⟨hturning, hcoupling⟩
    obtain ⟨r, v, hselect, hv, hv', hr⟩ := Scheme.select_cases current hturning
    rw [hcoupling] at hv' hr
    rcases hr with ⟨dr, rfl, hallow⟩ | hr
    · exact ⟨dr, v, hselect, hallow, hv, hv'⟩
    · exact absurd hr (Scheme.not_strands usable_permitted)
  update := by
    rintro y o dr w hallow ⟨hturning, hcoupling⟩
    rw [← hcoupling] at hallow
    obtain ⟨hv, hv'⟩ := Scheme.turning_update y (Pair.ofNat dr) o hturning
    exact ⟨_, Prod.ext (Scheme.update_ok y o hturning hallow) rfl, hv, hv'.trans hcoupling⟩

theorem forScheme_permitted {K : Type} : Coupling.forScheme 2 2 (some permitted)
    = (.ok ⟨permitted, usable_permitted⟩ : Except (Fault K) _) := rfl

/-- A new wheel for the pairs that may be combined. -/
noncomputable def wheel : Roulette ℝ where
  scores := ⟨3, 2, 1, 0, []⟩
  decay := 1
  floor := 1
  coupling := permitted
  destroyWeights := [1, 1]
  repairWeights := [1, 1]

/-- The wheel after the only pair of the second destroy operator was forbidden too. -/
noncomputable def stuckWheel : Roulette ℝ :=
  { wheel with coupling := Coupling.ofRule 2 2 fun d _ => d == 0 }

theorem make_wheel :
    Roulette.make (K := ℝ) [3, 2, 1, 0] 1 2 2 (some permitted) 1 = .ok wheel := by
  have hscores : Scores.ofList ([3, 2, 1, 0] : List ℝ) = .ok wheel.scores := by
    norm_num [Scores.ofList, wheel]
  rw [Roulette.make, forScheme_permitted]
  simp only [Checks.bind_ok_iff, Checks.guard_ok_iff, Checks.pure_ok_iff]
  refine ⟨_, rfl, _, hscores, by simp [Scalar.within], by simp, rfl⟩

theorem reachable_wheel : Scheme.Reachable (Level ℝ) (.roulette wheel) := .roulette make_wheel

theorem setMark_wheel : wheel.setMark 1 0 false = .ok stuckWheel := by
  with_unfolding_all rfl

theorem edited_stuckWheel : Scheme.Edited (Level ℝ) (.roulette stuckWheel) :=
  .roulette (.reached reachable_wheel) setMark_wheel

/-- What comes of counting down from two with the wheel, and the setting it leaves. -/
noncomputable def wheeled : Except (Fault ℝ) (Option (Progress ℝ (Level ℝ))) ×
    Setting ℝ (Parts (Level ℝ) Unit (Scheme ℝ (EpsilonGreedy ℝ)) Unit Unit) :=
  result (engine.run (methods (Scheme.selector EpsilonGreedy.policy) everyLevel 1)
    (fun n => (n : Int)) 3 (some ⟨2⟩)) (setting (.roulette wheel) ())

end Countdown

open Countdown in
/-- The wheel proposes a permitted pair, a countdown from two with it goes through two rounds with
such pairs and is stopped at zero, and the wheel whose second destroy operator has no partner left
proposes a pair with the first one or is stuck. -/
theorem only_permitted_wheel :
    Scheme.Proposes permitted (result (Scheme.select EpsilonGreedy.policy
      (⟨2⟩ : Level ℝ)) ⟨.roulette wheel, ⟨0, 1⟩, #[]⟩).1 ∧
    (∃ p rounds tail broken?, wheeled.1 = .ok (some p) ∧ p.best = ⟨0⟩ ∧ rounds.length = 2 ∧
      engine.Account (methods (Scheme.selector EpsilonGreedy.policy) everyLevel 1)
        permitted (fun n => (n : Int)) ⟨2⟩ (setting (.roulette wheel) ()) rounds tail
        broken? wheeled.1 wheeled.2 ∧
      (∀ r ∈ rounds, permitted.allows r.pair.1 r.pair.2 = true ∧ r.pair ≠ (1, 1)) ∧
      engine.RepairsFollow (K := ℝ) (rounds.flatMap Round.exchanges ++ tail) broken?) ∧
    (Scheme.Proposes stuckWheel.coupling (result (Scheme.select EpsilonGreedy.policy
        (⟨2⟩ : Level ℝ)) ⟨.roulette stuckWheel, ⟨0, 1⟩, #[]⟩).1 ∨
      Scheme.Strands stuckWheel.coupling (result (Scheme.select EpsilonGreedy.policy
        (⟨2⟩ : Level ℝ)) ⟨.roulette stuckWheel, ⟨0, 1⟩, #[]⟩).1) := by
  obtain ⟨hselect, hrun, hedited⟩ :=
    Engine.only_permitted (K := ℝ) (X := Level ℝ) (ω := Unit) (α := Unit) (τ := Unit)
  refine ⟨hselect ⟨2⟩ reachable_wheel, ?_, hedited ⟨2⟩ edited_stuckWheel⟩
  obtain ⟨p, v, hstops, hbest, -, hcount⟩ := run_from_two (K := ℝ)
    (w := setting (Scheme.roulette wheel) ()) supplies_scheme judges_everyLevel
    ⟨reachable_wheel.turning.1, rfl⟩ True.intro
  have hwheeled : wheeled = (.ok (some p), v) := hstops
  have hready := prepare_countdown (⟨2⟩ : Level ℝ)
  rw [hwheeled]
  rcases hrun rfl reachable_wheel hstops with
    ⟨f, -, hfailed, -⟩ | ⟨initial, c, rounds, tail, broken?, hp, haccount, hallowed, hfollow, -⟩
  · exact absurd hfailed (by simp)
  · cases hready.symm.trans hp
    refine ⟨p, rounds, tail, broken?, rfl, hbest, haccount.iterations_eq.symm.trans hcount, haccount,
      fun r hr => ⟨hallowed r hr, ?_⟩, hfollow⟩
    intro hpair
    have hlast := hallowed r hr
    rw [hpair] at hlast
    exact absurd hlast (by decide)

end LargeNeighbourhood
