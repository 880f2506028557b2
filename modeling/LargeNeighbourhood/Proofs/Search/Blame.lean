/-
# Who breaks a run off

A run whose scheme is one of the library, in a state it can be in, is never broken off by its
scheme.  The scheme proposes pairs that are legal under its own coupling, the checks before the run
saw to it that these are permitted, and a report about a pair that was proposed is taken.  Nor does
a look-up of an operator fail, for a permitted pair lies inside the registries.  What is left are
the faults of `Foreign`: those of the rule, the criterion, the operators and the callback.
-/
import Mathlib
import LargeNeighbourhood.Proofs.Search.Protocol
import LargeNeighbourhood.Proofs.Selection.Legality

namespace LargeNeighbourhood

open Act

namespace Engine

/-! ## 1. Faults of others -/

section Faults

variable {K X ω σ α τ : Type}

/-- A call that breaks a run off at `w` has the fault from another than the scheme: the rule, the
criterion, a registered operator or the callback raised it, or was asked for a solution there and
made none. -/
inductive Foreign (e : Engine K X ω) (m : Methods K X σ α τ) (now : Int)
    (w : Setting K (Parts X ω σ α τ)) : Call X → Fault K → Prop
  | rule {b c said s f}
      (failed : result (m.stopper.ask now b c) ⟨w.own.stop, w.rng, w.lines ++ said⟩
        = (.error f, s)) : Foreign e m now w (.shouldStop b c) f
  | criterion {b c y said s f}
      (failed : result (m.acceptor.accept b c y) ⟨w.own.criterion, w.rng, w.lines ++ said⟩
        = (.error f, s)) : Foreign e m now w (.accept b c y) f
  | destroy {d x op said s f} (registered : e.destroy.entries[d]? = some op)
      (failed : result (op.item x) ⟨w.own.world, w.rng, w.lines ++ said⟩ = (.error f, s)) :
      Foreign e m now w (.destroy d x) f
  | repair {r x op said s f} (registered : e.repair.entries[r]? = some op)
      (failed : result (op.item x) ⟨w.own.world, w.rng, w.lines ++ said⟩ = (.error f, s)) :
      Foreign e m now w (.repair r x) f
  | onBest {x op said s f} (set : e.onBest? = some op)
      (failed : result (op x) ⟨w.own.world, w.rng, w.lines ++ said⟩ = (.error f, s)) :
      Foreign e m now w (.onBest x) f
  | noDestroyed {d x op said s} (registered : e.destroy.entries[d]? = some op)
      (answered : result (op.item x) ⟨w.own.world, w.rng, w.lines ++ said⟩ = (.ok none, s)) :
      Foreign e m now w (.destroy d x) (.destroyedNothing op.name)
  | noRepaired {r x op said s} (registered : e.repair.entries[r]? = some op)
      (answered : result (op.item x) ⟨w.own.world, w.rng, w.lines ++ said⟩ = (.ok none, s)) :
      Foreign e m now w (.repair r x) (.repairedNothing op.name)
  | noPolished {x op said s} (set : e.onBest? = some op)
      (answered : result (op x) ⟨w.own.world, w.rng, w.lines ++ said⟩ = (.ok none, s)) :
      Foreign e m now w (.onBest x) .onBestNothing

/-- The call goes to the rule, the criterion, a registered operator or the callback there is. -/
def Elsewhere (e : Engine K X ω) : Call X → Prop
  | .select .. | .update .. => False
  | .destroy d _ => d < e.destroy.entries.length
  | .repair r _ => r < e.repair.entries.length
  | .onBest _ => e.onBest?.isSome = true
  | _ => True

variable {e : Engine K X ω} {m : Methods K X σ α τ} {coupling : Coupling} {now : Int}
  {w v : Setting K (Parts X ω σ α τ)} {f : Fault K}

/-- Apart from pairs, what the search refuses is that there is no solution. -/
theorem answer_of_refusal {call : Call X} {answer : Answer X}
    (h : e.refusal coupling call answer = some f) (hcall : e.Elsewhere call) :
    answer = .solution none := by
  unfold refusal at h
  split at h
  · exact absurd hcall id
  · rfl
  · rfl
  · rfl
  · exact absurd h (by simp)

/-- The call to an operator breaks a run off where the operator fails, or makes no solution. -/
theorem solution_breaks {call : Call X} {op : Operator K X ω} {x : X}
    (hc : e.callee m now call = .solution <$> apply op x) (hcall : e.Elsewhere call)
    (h : e.Breaks m coupling now w call f v) :
    ∃ said s, result (op x) ⟨w.own.world, w.rng, w.lines ++ said⟩ = (.error f, s) ∨
      result (op x) ⟨w.own.world, w.rng, w.lines ++ said⟩ = (.ok none, s) ∧
        e.refusal coupling call (.solution none) = some f := by
  rcases h with ⟨said, h⟩ | ⟨answer, ⟨said, h⟩, hr⟩
  · rw [hc] at h
    obtain ⟨z, hz⟩ := map_on_error h
    exact ⟨said, z, Or.inl hz⟩
  · cases answer_of_refusal hr hcall
    rw [hc] at h
    obtain ⟨y?, z, hy, hz, -⟩ := map_on_ok h
    cases hy
    exact ⟨said, z, Or.inr ⟨hz, hr⟩⟩

/-- A call that goes elsewhere breaks a run off with a fault of others. -/
theorem foreign_of_breaks {call : Call X} (hcall : e.Elsewhere call)
    (h : e.Breaks m coupling now w call f v) : e.Foreign m now w call f := by
  cases call with
  | select b c => exact absurd hcall id
  | update y p o => exact absurd hcall id
  | shouldStop b c =>
    rcases h with ⟨said, h⟩ | ⟨answer, -, hr⟩
    · obtain ⟨z, hz⟩ := map_on_error h
      exact .rule hz
    · exact absurd hr (by simp [refusal])
  | accept b c y =>
    rcases h with ⟨said, h⟩ | ⟨answer, -, hr⟩
    · obtain ⟨z, hz⟩ := map_on_error h
      exact .criterion hz
    · exact absurd hr (by simp [refusal])
  | destroy d x =>
    obtain ⟨op, hop, -, hget⟩ := Registry.entry_of_lt (K := K) hcall
    obtain ⟨said, s, hs | ⟨hs, hr⟩⟩ := solution_breaks (callee_destroy m now hop x) hcall h
    · exact .destroy hget hs
    · rw [refusal, hget] at hr
      cases hr
      exact .noDestroyed hget hs
  | repair r y =>
    obtain ⟨op, hop, -, hget⟩ := Registry.entry_of_lt (K := K) hcall
    obtain ⟨said, s, hs | ⟨hs, hr⟩⟩ := solution_breaks (callee_repair m now hop y) hcall h
    · exact .repair hget hs
    · rw [refusal, hget] at hr
      cases hr
      exact .noRepaired hget hs
  | onBest y =>
    obtain ⟨op, hop⟩ := Option.isSome_iff_exists.1 hcall
    obtain ⟨said, s, hs | ⟨hs, hr⟩⟩ := solution_breaks (callee_onBest m now hop y) hcall h
    · exact .onBest hop hs
    · cases hr
      exact .noPolished hop hs

end Faults

/-! ## 2. The scheme in a run -/

section Schemes

variable {K X ω α τ : Type} [Field K] [LinearOrder K] [IsStrictOrderedRing K] [Elementary K]
  [Solution K X]
variable {e : Engine K X ω} {m : Methods K X (Scheme K (EpsilonGreedy K)) α τ}
  {coupling c : Coupling} {now : Int}
  {w v : Setting K (Parts X ω (Scheme K (EpsilonGreedy K)) α τ)} {f : Fault K} {x : Exchange X}
  {xs : List (Exchange X)}

/-- The scheme can select, by a coupling that is usable. -/
structure KeepsTo (c : Coupling) (w : Setting K (Parts X ω (Scheme K (EpsilonGreedy K)) α τ)) :
    Prop where
  turning : w.own.scheme.Turning
  coupling_eq : w.own.scheme.coupling = c
  usable : c.Usable

/-- A selection of such a scheme is a legal pair, whatever the search says before. -/
theorem KeepsTo.proposes (hw : KeepsTo c w) {cur : X} {said : Array (Line K)}
    {r : Except (Fault K) Pair} {z : Setting K (Scheme K (EpsilonGreedy K))}
    (h : result (Scheme.select EpsilonGreedy.policy cur)
      ⟨w.own.scheme, w.rng, w.lines ++ said⟩ = (r, z)) : Scheme.Proposes c r := by
  obtain ⟨r', v, hselect, -, -, hr⟩ := Scheme.select_cases cur
    (w := ⟨w.own.scheme, w.rng, w.lines ++ said⟩) hw.turning
  rw [h] at hselect
  cases hselect
  simp only [hw.coupling_eq] at hr
  rcases hr with hr | hr
  · exact hr
  · exact absurd hr (Scheme.not_strands hw.usable)

omit [IsStrictOrderedRing K] [Elementary K] [Solution K X] in
theorem KeepsTo.next (hw : KeepsTo c w) {s : Scheme K (EpsilonGreedy K)}
    (hs : s.Turning ∧ s.coupling = w.own.scheme.coupling) (hv : v.own.scheme = s) :
    KeepsTo c v := by
  refine ⟨?_, ?_, hw.usable⟩
  · rw [hv]
    exact hs.1
  · rw [hv]
    exact hs.2.trans hw.coupling_eq

/-- A selection leaves such a scheme ... -/
theorem KeepsTo.select (hw : KeepsTo c w) {cur : X} {said : Array (Line K)}
    {r : Except (Fault K) Pair} {z : Setting K (Scheme K (EpsilonGreedy K))}
    (h : result (Scheme.select EpsilonGreedy.policy cur)
      ⟨w.own.scheme, w.rng, w.lines ++ said⟩ = (r, z)) (hv : v.own.scheme = z.own) :
    KeepsTo c v := by
  have hnext := Scheme.turning_select cur
    (w := ⟨w.own.scheme, w.rng, w.lines ++ said⟩) hw.turning
  rw [h] at hnext
  exact hw.next hnext hv

omit [IsStrictOrderedRing K] [Elementary K] in
/-- ... and so does a report. -/
theorem KeepsTo.update (hw : KeepsTo c w) {y : X} {pair : Pair} {o : Outcome}
    {said : Array (Line K)} {r : Except (Fault K) Unit} {z : Setting K (Scheme K (EpsilonGreedy K))}
    (h : result (Scheme.update EpsilonGreedy.policy y pair o)
      ⟨w.own.scheme, w.rng, w.lines ++ said⟩ = (r, z)) (hv : v.own.scheme = z.own) :
    KeepsTo c v := by
  have hnext := Scheme.turning_update y pair o
    (w := ⟨w.own.scheme, w.rng, w.lines ++ said⟩) hw.turning
  rw [h] at hnext
  exact hw.next hnext hv

omit [IsStrictOrderedRing K] [Elementary K] in
/-- A report about a pair that such a scheme may propose is taken. -/
theorem KeepsTo.takes (hw : KeepsTo c w) {y : X} {dr : Nat × Nat} {o : Outcome}
    {said : Array (Line K)} {r : Except (Fault K) Unit} {z : Setting K (Scheme K (EpsilonGreedy K))}
    (hdr : c.allows dr.1 dr.2 = true)
    (h : result (Scheme.update EpsilonGreedy.policy y (Pair.ofNat dr) o)
      ⟨w.own.scheme, w.rng, w.lines ++ said⟩ = (r, z)) : r = .ok () := by
  rw [← hw.coupling_eq] at hdr
  have hupdate := Scheme.update_ok y o
    (w := ⟨w.own.scheme, w.rng, w.lines ++ said⟩) hw.turning hdr
  rw [h] at hupdate
  exact hupdate

variable (hm : m.selector = Scheme.selector EpsilonGreedy.policy)
include hm

/-- Every call leaves a scheme that can select, by the same coupling. -/
theorem Exchanged.keepsTo (h : e.Exchanged m now w x v) (hw : KeepsTo c w) : KeepsTo c v := by
  obtain ⟨call, answer⟩ := x
  cases call with
  | select b cur =>
    obtain ⟨said, h⟩ := h
    rw [callee, hm] at h
    obtain ⟨p, z, -, hz, hown⟩ := map_on_ok h
    have hscheme : v.own.scheme = z.own := by
      rw [hown]
    exact hw.select hz hscheme
  | update y p o =>
    obtain ⟨said, h⟩ := h
    rw [callee, hm] at h
    obtain ⟨a, z, -, hz, hown⟩ := map_on_ok h
    have hscheme : v.own.scheme = z.own := by
      rw [hown]
    exact hw.update hz hscheme
  | _ => exact hw.next ⟨hw.turning, rfl⟩ (h.keeps (keeps_scheme (by simp) (by simp)))

theorem Performs.keepsTo (h : e.Performs m now w xs v) (hw : KeepsTo c w) : KeepsTo c v := by
  induction h with
  | nil => exact hw
  | cons head tail ih => exact ih (head.keepsTo hm hw)

/-- A pair that was proposed is legal under the scheme's coupling. -/
theorem Exchanged.allows {b cur : X} {p : Pair}
    (h : e.Exchanged m now w ⟨.select b cur, .pair p⟩ v) (hw : KeepsTo c w) :
    ∃ dr, p = Pair.ofNat dr ∧ c.allows dr.1 dr.2 = true := by
  obtain ⟨said, h⟩ := h
  rw [callee, hm] at h
  obtain ⟨a, z, ha, hz, -⟩ := map_on_ok h
  cases ha
  obtain ⟨dr, hr, hallow⟩ := hw.proposes hz
  cases hr
  exact ⟨dr, rfl, hallow⟩

/-- A scheme that proposes only what is permitted does not break a run off ... -/
theorem not_breaks_select {b cur : X} (hw : KeepsTo c w)
    (hc : ∀ d r, c.allows d r = true → coupling.allows d r = true) :
    ¬e.Breaks m coupling now w (.select b cur) f v := by
  rintro (⟨said, h⟩ | ⟨answer, h, hr⟩)
  · rw [callee, hm] at h
    obtain ⟨z, hz⟩ := map_on_error h
    obtain ⟨dr, hr, -⟩ := hw.proposes hz
    exact absurd hr (by simp)
  · cases answer with
    | pair p =>
      obtain ⟨dr, rfl, hallow⟩ := h.allows hm hw
      rw [refusal, Coupling.legal?_ofNat (hc _ _ hallow)] at hr
      exact absurd hr (by simp)
    | _ => exact absurd hr (by simp [refusal])

omit [IsStrictOrderedRing K] in
/-- ... nor when it is told of a pair that it proposed. -/
theorem not_breaks_update {y : X} {o : Outcome} {dr : Nat × Nat} (hw : KeepsTo c w)
    (hdr : c.allows dr.1 dr.2 = true) :
    ¬e.Breaks m coupling now w (.update y (Pair.ofNat dr) o) f v := by
  rintro (⟨said, h⟩ | ⟨answer, -, hr⟩)
  · rw [callee, hm] at h
    obtain ⟨z, hz⟩ := map_on_error h
    have hok := hw.takes hdr hz
    exact absurd hok (by simp)
  · exact absurd hr (by simp [refusal])

/-! ## 3. Whole runs of a scheme -/

variable {clock : Nat → Int} {p q : Progress K X} {rounds : List (Round X)} {r : Round X}
  {answered : List (Exchange X)} {call : Call X}

theorem Rounds.keepsTo (h : e.Rounds m coupling clock p w rounds q v) (hw : KeepsTo c w) :
    KeepsTo c v := by
  induction h with
  | nil => exact hw
  | cons best current lawful performed rest ih =>
    have hnext := performed.keepsTo hm hw
    exact ih ⟨hnext.turning, hnext.coupling_eq, hnext.usable⟩

/-- Before the report of a round breaks off, the scheme proposed the pair of the round. -/
theorem Cut.proposed {o : Outcome}
    (h : e.Cut m coupling clock p w r answered (.update r.candidate (Pair.ofNat r.pair) o) f v)
    (hw : KeepsTo c w) : ∃ dr, Pair.ofNat r.pair = Pair.ofNat dr ∧ c.allows dr.1 dr.2 = true := by
  obtain ⟨hscript, hcalls, z, hperf, -⟩ := h.interrupted
  match answered, hscript, hcalls, hperf with
  | [], _, hcalls, _ => exact absurd hcalls (by simp [Round.exchanges])
  | [_], _, hcalls, _ => exact absurd hcalls (by simp [Round.exchanges])
  | _ :: _ :: _, hscript, _, .cons hstop (.cons hselect _) =>
    obtain ⟨-, hscript⟩ := List.cons_prefix_cons.1 hscript
    obtain ⟨rfl, -⟩ := List.cons_prefix_cons.1 hscript
    exact hselect.allows hm (hstop.keepsTo hm hw)

/-- **A run is broken off by others than its scheme**, and they have the fault. -/
theorem Cut.foreign (h : e.Cut m coupling clock p w r answered call f v) (hw : KeepsTo c w)
    (ready : e.Ready c coupling) :
    ∃ z, e.Performs m (clock (2 * p.statistics.iterations + 1)) w answered z ∧
      e.Foreign m (clock (2 * p.statistics.iterations + 1)) z call f := by
  obtain ⟨z, hperf, hbreak⟩ := h.interrupted.broken
  have hz := hperf.keepsTo hm hw
  have hcall := h.interrupted.calls.subset (List.mem_append_right _ (List.mem_singleton_self _))
  refine ⟨z, hperf, ?_⟩
  rcases r.mem_calls hcall with rfl | rfl | rfl | rfl | rfl | ⟨hasked, rfl⟩ | rfl
  · exact foreign_of_breaks True.intro hbreak
  · exact absurd hbreak (not_breaks_select hm hz ready.allows_of_scheme)
  · exact foreign_of_breaks (ready.covers.destroy_lt _ _ h.lawful.permitted) hbreak
  · exact foreign_of_breaks (ready.covers.repair_lt _ _ h.lawful.permitted) hbreak
  · exact foreign_of_breaks True.intro hbreak
  · exact foreign_of_breaks (h.lawful.polished_iff.1 hasked).1 hbreak
  · obtain ⟨dr, hdr, hallow⟩ := h.proposed hm hw
    rw [hdr] at hbreak
    exact absurd hbreak (not_breaks_update hm hz hallow)

end Schemes

end Engine

end LargeNeighbourhood
