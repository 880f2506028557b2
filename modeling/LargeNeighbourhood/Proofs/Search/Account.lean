/-
# Every run is a sequence of rounds

The loop of a search against its description in `Search.Round`.  One iteration is a lawful round,
or a lawful round that some call broke off (`turn_cases`); so the loop, whatever fuel it is given,
goes through lawful rounds and then ends in one of the three ways of `Ends` (`loop_cases`).  The
induction is on the fuel, and all it carries is that the coupling marks registered operators only.

Each round adds an objective, a time and its outcome to the record (`Engine.Rounds.recorded`).
-/
import LargeNeighbourhood.Proofs.Search.Calls

namespace LargeNeighbourhood

open Act

namespace Engine

variable {K X ω σ α τ : Type} [Solution K X] [LT K] [DecidableLT K]
variable {e : Engine K X ω} {m : Methods K X σ α τ} {coupling : Coupling} {clock : Nat → Int}
  {now : Int} {p : Progress K X} {w v : Setting K (Parts X ω σ α τ)} {f : Fault K}

/-! ## 1. Judging a candidate -/

/-- Whatever is known of a candidate, there is an answer of the callback to go with it. -/
theorem exists_polished (e : Engine K X ω) (best candidate : X) :
    ∃ z? : Option X,
      z?.isSome = true ↔ e.onBest?.isSome = true ∧ objective candidate < objective best := by
  by_cases h : e.onBest?.isSome = true ∧ objective candidate < objective best
  · exact ⟨some candidate, by simpa using h⟩
  · exact ⟨none, by simpa using h⟩

/-- Judging a candidate takes the call to the criterion and, if it is asked, that to the callback;
the outcome and the two solutions are those of the round. -/
theorem evaluate_ok (now : Int) (pair : Nat × Nat) (y : X) {c best current : X} {o : Outcome}
    (h : result (e.evaluate m p c) w = (.ok (o, best, current), v)) :
    ∃ r : Round X, ∃ said u,
      r = ⟨p.best, p.current, pair, y, c, r.accepted, r.polished?⟩ ∧
      (r.polished?.isSome = true ↔ e.onBest?.isSome = true ∧ r.Improves) ∧
      o = r.outcome ∧ best = r.nextBest ∧ current = r.nextCurrent ∧
      e.Performs m now w (⟨.accept p.best p.current c, .verdict r.accepted⟩ :: r.polishing) u ∧
      v = u.saying said := by
  unfold evaluate at h
  rw [bind_ok_iff] at h
  obtain ⟨a, u, ha, h⟩ := h
  have hx := accepts_ok e now ha
  split at h
  · rename_i himp
    rw [result_bind, result_sayIf, bind_ok_iff] at h
    obtain ⟨z, u', hz, h⟩ := h
    simp only [result_pure, Prod.mk.injEq, Except.ok.injEq] at h
    obtain ⟨⟨rfl, rfl, rfl⟩, rfl⟩ := h
    cases he : e.onBest? with
    | none =>
      rw [polish_none he, Prod.mk.injEq, Except.ok.injEq] at hz
      obtain ⟨rfl, rfl⟩ := hz
      refine ⟨⟨p.best, p.current, pair, y, c, a, none⟩, _, u, rfl, by simp, ?_, ?_, ?_,
        .cons hx .nil, rfl⟩
      · exact (if_pos himp).symm
      · exact (if_pos himp).symm
      · exact (if_pos himp).symm
    | some op =>
      have hp := (polish_ok m now he hz).of_saying
      refine ⟨⟨p.best, p.current, pair, y, c, a, some z⟩, #[], u', rfl, ?_, ?_, ?_, ?_,
        .cons hx (.cons hp .nil), by simp⟩
      · exact ⟨fun _ => ⟨rfl, himp⟩, fun _ => rfl⟩
      · exact (if_pos himp).symm
      · exact (if_pos himp).symm
      · exact (if_pos himp).symm
  · rename_i himp
    simp only [result_pure, Prod.mk.injEq, Except.ok.injEq] at h
    obtain ⟨⟨rfl, rfl, rfl⟩, rfl⟩ := h
    refine ⟨⟨p.best, p.current, pair, y, c, a, none⟩, #[], u, rfl, ?_, ?_, ?_, ?_,
      .cons hx .nil, by simp⟩
    · simpa [Round.Improves] using fun _ => himp
    · exact (if_neg himp).symm
    · exact (if_neg himp).symm
    · exact (if_neg himp).symm

/-- If judging a candidate fails, it is the call to the criterion or that to the callback that
broke off. -/
theorem evaluate_error (coupling : Coupling) (now : Int) (pair : Nat × Nat) (y : X) {c : X}
    (h : result (e.evaluate m p c) w = (.error f, v)) :
    ∃ r : Round X, ∃ answered call,
      r = ⟨p.best, p.current, pair, y, c, r.accepted, r.polished?⟩ ∧
      (r.polished?.isSome = true ↔ e.onBest?.isSome = true ∧ r.Improves) ∧
      e.Interrupted m coupling now w
        (⟨.accept p.best p.current c, .verdict r.accepted⟩ :: r.polishing) answered call f v := by
  unfold evaluate at h
  rw [bind_error_iff] at h
  rcases h with ha | ⟨a, u, ha, h⟩
  · obtain ⟨z?, hz⟩ := exists_polished e p.best c
    have hb := accepts_error e coupling now ha
    exact ⟨⟨p.best, p.current, pair, y, c, false, z?⟩, _, _, rfl, hz, .here hb⟩
  · have hx := accepts_ok e now ha
    split at h
    · rename_i himp
      rw [result_bind, result_sayIf, bind_error_iff] at h
      rcases h with hz | ⟨z, u', hz, h⟩
      · cases he : e.onBest? with
        | none =>
          rw [polish_none he] at hz
          exact absurd hz (by simp)
        | some op =>
          have hb := (polish_error m coupling now he hz).of_saying
          exact ⟨⟨p.best, p.current, pair, y, c, a, some c⟩, _, _, rfl,
            ⟨fun _ => ⟨rfl, himp⟩, fun _ => rfl⟩, .later hx (.here hb)⟩
      · exact absurd h (by simp)
    · exact absurd h (by simp)

/-! ## 2. One iteration -/

/-- **An iteration that succeeds is a lawful round.** -/
theorem turn_ok (hc : e.Covers coupling) {t : Turn X}
    (hs : e.Exchanged m now w ⟨.shouldStop p.best p.current, .verdict false⟩ v)
    {u : Setting K (Parts X ω σ α τ)} (h : result (e.turn m coupling p) v = (.ok t, u)) :
    ∃ r : Round X, r.best = p.best ∧ r.current = p.current ∧ r.Lawful e coupling ∧
      t = r.turn e ∧ e.Performs m now w r.exchanges u := by
  unfold turn at h
  rw [bind_ok_iff] at h
  obtain ⟨⟨d, r⟩, v₁, h₁, h⟩ := h
  obtain ⟨hallow, hx₁⟩ := select_ok e now h₁
  simp only at h
  rw [bind_ok_iff] at h
  obtain ⟨⟨dname, y⟩, v₂, h₂, h⟩ := h
  obtain ⟨rfl, hx₂⟩ := destroyAt_ok m now (hc.destroy_lt d r hallow) h₂
  simp only at h
  rw [bind_ok_iff] at h
  obtain ⟨⟨rname, c⟩, v₃, h₃, h⟩ := h
  obtain ⟨rfl, hx₃⟩ := repairAt_ok m now (hc.repair_lt d r hallow) h₃
  simp only at h
  rw [bind_ok_iff] at h
  obtain ⟨⟨o, best, current⟩, v₄, h₄, h⟩ := h
  obtain ⟨k, said, v₅, hk, hpol, rfl, rfl, rfl, hperf, rfl⟩ :=
    evaluate_ok now (d, r) y h₄
  simp only at h
  rw [bind_ok_iff] at h
  obtain ⟨_, v₆, h₆, h⟩ := h
  simp only [result_pure, Prod.mk.injEq, Except.ok.injEq] at h
  obtain ⟨rfl, rfl⟩ := h
  have hx₆ := (report_ok e now h₆).of_saying
  obtain ⟨a, z?, rfl⟩ : ∃ a z?, k = ⟨p.best, p.current, (d, r), y, c, a, z?⟩ := ⟨_, _, hk⟩
  refine ⟨_, rfl, rfl, ⟨hallow, hpol⟩, rfl, ?_⟩
  rw [Round.exchanges_eq_question]
  exact .append (.cons hs (.cons hx₁ (.cons hx₂ (.cons hx₃ .nil))))
    (.append hperf (.cons hx₆ .nil))

/-- **An iteration that fails is a lawful round that some call broke off.**  What is not known of
the round by then is filled in: any permitted pair before one was selected, the current solution
for one that was not made yet. -/
theorem turn_error (hc : e.Covers coupling)
    (hs : e.Exchanged m now w ⟨.shouldStop p.best p.current, .verdict false⟩ v)
    {u : Setting K (Parts X ω σ α τ)} (h : result (e.turn m coupling p) v = (.error f, u)) :
    ∃ r : Round X, ∃ answered call, r.best = p.best ∧ r.current = p.current ∧
      r.Lawful e coupling ∧ e.Interrupted m coupling now w r.exchanges answered call f u := by
  unfold turn at h
  rw [bind_error_iff] at h
  rcases h with h₁ | ⟨⟨d, r⟩, v₁, h₁, h⟩
  · obtain ⟨d, r, hallow⟩ := hc.exists_pair
    obtain ⟨z?, hz⟩ := exists_polished e p.best p.current
    exact ⟨⟨p.best, p.current, (d, r), p.current, p.current, false, z?⟩, _, _, rfl, rfl,
      ⟨hallow, hz⟩, .later hs (.here (select_error e now h₁))⟩
  obtain ⟨hallow, hx₁⟩ := select_ok e now h₁
  simp only at h
  rw [bind_error_iff] at h
  rcases h with h₂ | ⟨⟨dname, y⟩, v₂, h₂, h⟩
  · obtain ⟨z?, hz⟩ := exists_polished e p.best p.current
    have hb := destroyAt_error m coupling now
      (hc.destroy_lt d r hallow) h₂
    exact ⟨⟨p.best, p.current, (d, r), p.current, p.current, false, z?⟩, _, _, rfl, rfl,
      ⟨hallow, hz⟩, .later hs (.later hx₁ (.here hb))⟩
  obtain ⟨rfl, hx₂⟩ := destroyAt_ok m now (hc.destroy_lt d r hallow) h₂
  simp only at h
  rw [bind_error_iff] at h
  rcases h with h₃ | ⟨⟨rname, c⟩, v₃, h₃, h⟩
  · obtain ⟨z?, hz⟩ := exists_polished e p.best p.current
    have hb := repairAt_error m coupling now
      (hc.repair_lt d r hallow) h₃
    exact ⟨⟨p.best, p.current, (d, r), y, p.current, false, z?⟩, _, _, rfl, rfl,
      ⟨hallow, hz⟩, .later hs (.later hx₁ (.later hx₂ (.here hb)))⟩
  obtain ⟨rfl, hx₃⟩ := repairAt_ok m now (hc.repair_lt d r hallow) h₃
  have hfirst := Performs.cons hs (.cons hx₁ (.cons hx₂ (.cons hx₃ .nil)))
  simp only at h
  rw [bind_error_iff] at h
  rcases h with h₄ | ⟨⟨o, best, current⟩, v₄, h₄, h⟩
  · obtain ⟨k, answered, call, hk, hpol, hint⟩ :=
      evaluate_error coupling now (d, r) y h₄
    obtain ⟨a, z?, rfl⟩ : ∃ a z?, k = ⟨p.best, p.current, (d, r), y, c, a, z?⟩ := ⟨_, _, hk⟩
    have hcut := Interrupted.after hfirst (hint.append [⟨.update c (Pair.ofNat (d, r))
      (Round.outcome ⟨p.best, p.current, (d, r), y, c, a, z?⟩), .noted⟩])
    exact ⟨_, _, _, rfl, rfl, ⟨hallow, hpol⟩, by rw [Round.exchanges_eq_question]; exact hcut⟩
  · obtain ⟨k, said, v₅, hk, hpol, rfl, rfl, rfl, hperf, rfl⟩ :=
      evaluate_ok now (d, r) y h₄
    simp only at h
    rw [bind_error_iff] at h
    rcases h with h₆ | ⟨_, v₆, h₆, h⟩
    · have hb := (report_error e coupling now h₆).of_saying
      obtain ⟨a, z?, rfl⟩ : ∃ a z?, k = ⟨p.best, p.current, (d, r), y, c, a, z?⟩ := ⟨_, _, hk⟩
      have hlast : e.Interrupted m coupling now v₅ [⟨_, .noted⟩] [] _ f u := .here hb
      have hcut := Interrupted.after hfirst (.after hperf hlast)
      exact ⟨_, _, _, rfl, rfl, ⟨hallow, hpol⟩, by rw [Round.exchanges_eq_question]; exact hcut⟩
    · exact absurd h (by simp)

/-! ## 3. The loop -/

variable (e) (coupling) (clock) in
/-- The loop ends where the rule says so ... -/
theorem loop_of_stop (fuel : Nat)
    (h : result (shouldStop m (clock (2 * p.statistics.iterations + 1)) p) w = (.ok true, v)) :
    ∃ said, result (e.loop m coupling clock (fuel + 1) p) w
      = (.ok (some p), v.saying said) := by
  rw [loop, result_bind, h]
  simp only [if_true, finish, result_bind, result_sayIf, result_pure]
  exact ⟨_, rfl⟩

variable (clock) in
/-- ... goes on after an iteration where it does not ... -/
theorem loop_of_turn (fuel : Nat) {t : Turn X} {u : Setting K (Parts X ω σ α τ)}
    (h : result (shouldStop m (clock (2 * p.statistics.iterations + 1)) p) w = (.ok false, v))
    (ht : result (e.turn m coupling p) v = (.ok t, u)) :
    ∃ said, result (e.loop m coupling clock (fuel + 1) p) w
      = result (e.loop m coupling clock fuel
        (recorded (clock (2 * p.statistics.iterations + 2)) p t)) (u.saying said) := by
  rw [loop, result_bind, h]
  simp only [Bool.false_eq_true, if_false, result_bind, ht, conclude, result_sayIf, result_pure]
  exact ⟨_, rfl⟩

variable (clock) in
/-- ... and fails with the iteration. -/
theorem loop_of_broken (fuel : Nat) {u : Setting K (Parts X ω σ α τ)}
    (h : result (shouldStop m (clock (2 * p.statistics.iterations + 1)) p) w = (.ok false, v))
    (ht : result (e.turn m coupling p) v = (.error f, u)) :
    result (e.loop m coupling clock (fuel + 1) p) w = (.error f, u) := by
  rw [loop, result_bind, h]
  simp only [Bool.false_eq_true, if_false, result_bind, ht]

/-- **The loop is a sequence of lawful rounds**, after which the rule stops it, the fuel is used
up, or a call breaks off the next round. -/
theorem loop_cases (hc : e.Covers coupling) :
    ∀ (fuel : Nat) (p : Progress K X) (w : Setting K (Parts X ω σ α τ))
      {res : Except (Fault K) (Option (Progress K X))} {v : Setting K (Parts X ω σ α τ)},
      result (e.loop m coupling clock fuel p) w = (res, v) →
      ∃ rounds q u tail broken?, e.Rounds m coupling clock p w rounds q u ∧
        e.Ends m coupling clock q u tail broken? res v ∧ (res = .ok none → rounds.length = fuel)
  | 0, p, w, res, v, h => by
    simp only [loop, result_pure, Prod.mk.injEq] at h
    obtain ⟨rfl, rfl⟩ := h
    exact ⟨[], p, w, _, _, .nil, .exhausted, fun _ => rfl⟩
  | fuel + 1, p, w, res, v, h => by
    rcases hs : result (shouldStop m (clock (2 * p.statistics.iterations + 1)) p) w with
      ⟨f | stop, v₁⟩
    · rw [loop, result_bind, hs] at h
      cases h
      obtain ⟨d, r, hallow⟩ := hc.exists_pair
      obtain ⟨z?, hz⟩ := exists_polished e p.best p.current
      have hb := shouldStop_error e coupling hs
      exact ⟨[], p, w, _, _, .nil,
        .failed (r := ⟨p.best, p.current, (d, r), p.current, p.current, false, z?⟩)
          ⟨rfl, rfl, ⟨hallow, hz⟩, .here hb⟩, fun hn => absurd hn (by simp)⟩
    have hx := shouldStop_ok e hs
    cases stop with
    | true =>
      obtain ⟨said, hloop⟩ := loop_of_stop e coupling clock fuel hs
      rw [hloop] at h
      cases h
      exact ⟨[], p, w, _, _, .nil, .stopped hx, fun hn => absurd hn (by simp)⟩
    | false =>
      rcases ht : result (e.turn m coupling p) v₁ with ⟨f | t, v₂⟩
      · rw [loop_of_broken clock fuel hs ht] at h
        cases h
        obtain ⟨r, answered, call, hbest, hcurrent, hlaw, hint⟩ := turn_error hc hx ht
        exact ⟨[], p, w, _, _, .nil, .failed ⟨hbest, hcurrent, hlaw, hint⟩,
          fun hn => absurd hn (by simp)⟩
      · obtain ⟨r, hbest, hcurrent, hlaw, rfl, hperf⟩ := turn_ok hc hx ht
        obtain ⟨said, hloop⟩ := loop_of_turn clock fuel hs ht
        rw [hloop] at h
        obtain ⟨rounds, q, u, tail, broken?, hrounds, hends, hfuel⟩ := loop_cases hc fuel _ _ h
        exact ⟨r :: rounds, q, u, tail, broken?, .cons hbest hcurrent hlaw hperf hrounds, hends,
          fun hn => congrArg (· + 1) (hfuel hn)⟩

/-! ## 4. What rounds add to a record -/

variable {rounds : List (Round X)} {q : Progress K X} {u : Setting K (Parts X ω σ α τ)}

omit [LT K] [DecidableLT K] in
/-- What an iteration adds to a record whose clock is running. -/
theorem statistics_recorded (now : Int) (t : Turn X) (hp : p.statistics.last?.isSome = true) :
    let s := (recorded now p t).statistics
    s.objectives = p.statistics.objectives.push (objective t.current) ∧
      s.iterations = p.statistics.iterations + 1 ∧ s.last?.isSome = true ∧
      s.destroyCounts = Tally.record t.destroy t.outcome p.statistics.destroyCounts ∧
      s.repairCounts = Tally.record t.repair t.outcome p.statistics.repairCounts := by
  obtain ⟨before, hbefore⟩ := Option.isSome_iff_exists.1 hp
  simp [recorded, Statistics.recordTime, Statistics.recordRepair, Statistics.recordDestroy,
    Statistics.recordObjective, Statistics.iterations, hbefore]

/-- **What rounds add to a record**: an objective and a time each, and each an outcome in both
tallies. -/
theorem Rounds.recorded (h : e.Rounds m coupling clock p w rounds q u)
    (hp : p.statistics.last?.isSome = true) :
    q.statistics.objectives.toList
        = p.statistics.objectives.toList ++ rounds.map (fun r => objective r.nextCurrent) ∧
      q.statistics.iterations = p.statistics.iterations + rounds.length ∧
      q.statistics.destroyCounts
        = (rounds.map fun r => (e.destroy.nameAt r.pair.1, r.outcome)).foldl
          (fun t event => Tally.record event.1 event.2 t) p.statistics.destroyCounts ∧
      q.statistics.repairCounts
        = (rounds.map fun r => (e.repair.nameAt r.pair.2, r.outcome)).foldl
          (fun t event => Tally.record event.1 event.2 t) p.statistics.repairCounts := by
  induction h with
  | nil => simp
  | @cons p w r v said rounds q u best current lawful performed rest ih =>
    obtain ⟨hobjectives, hiterations, hlast, hdestroy, hrepair⟩ :=
      statistics_recorded (clock (2 * p.statistics.iterations + 2)) (r.turn e) hp
    obtain ⟨ho, hi, hd, hr⟩ := ih hlast
    refine ⟨?_, ?_, ?_, ?_⟩
    · rw [ho, hobjectives, Array.toList_push, List.append_assoc]
      rfl
    · rw [hi, hiterations, List.length_cons]
      omega
    · rw [hd, hdestroy]
      rfl
    · rw [hr, hrepair]
      rfl

/-- A run counts its rounds. -/
theorem Rounds.iterations_eq {initial : X}
    (h : e.Rounds m coupling clock (opening (clock 0) initial) w rounds q u) :
    q.statistics.iterations = rounds.length := by
  rw [(h.recorded rfl).2.1]
  exact Nat.zero_add _

end Engine

end LargeNeighbourhood
