/-
# Properties that the operators pass on

Suppose that of a solution with some property every destroy operator makes one that has the
property and stands in some relation to it, that every repair operator does so with a relation of
its own, and that the callback keeps the property (`PassesOn`).  Then in a run from an initial
solution with the property no operator is at fault, and whatever the scheme, the criterion and the
rule do:

* every call to an operator is answered with such a solution (`Inherits`);
* the best and the current solution have the property wherever the run stands
  (`Rounds.inherits`).

What carries the induction is that the current solution has the property.  It is what the destroy
operator is given; what the repair operator is given was made by the call before
(`repairsFollow_of_begun`).
-/
import Mathlib
import LargeNeighbourhood.Proofs.Search.Permitted

namespace LargeNeighbourhood

open Act

/-- Wherever the operator is run on the solution, it makes a solution that is as stated. -/
def Operator.Makes {K X ω : Type} (op : Operator K X ω) (x : X) (Q : X → Prop) : Prop :=
  ∀ w, ∃ y v, result (op x) w = (.ok (some y), v) ∧ Q y

namespace Engine

section Exchanges

variable {K X ω σ α τ : Type}

/-- The operators and the callback pass the property on.  What a destroy operator makes is
`Removed` from what it gets, and what a repair operator makes is `Filled` from what it gets. -/
structure PassesOn (e : Engine K X ω) (P : X → Prop) (Removed Filled : X → X → Prop) : Prop where
  destroy : ∀ op ∈ e.destroy.entries, ∀ x, P x →
    Operator.Makes op.item x fun y => P y ∧ Removed x y
  repair : ∀ op ∈ e.repair.entries, ∀ x, P x →
    Operator.Makes op.item x fun y => P y ∧ Filled x y
  onBest : ∀ op, e.onBest? = some op → ∀ x, P x → ∀ w y v,
    result (op x) w = (.ok (some y), v) → P y

/-- Every operator that was called made such a solution, and none broke the run off. -/
structure Inherits (P : X → Prop) (Removed Filled : X → X → Prop) (xs : List (Exchange X))
    (broken? : Option (Call X)) : Prop where
  destroyed : ∀ d x answer, ⟨.destroy d x, answer⟩ ∈ xs →
    ∃ y, answer = .solution (some y) ∧ P y ∧ Removed x y
  repaired : ∀ r x answer, ⟨.repair r x, answer⟩ ∈ xs →
    ∃ y, answer = .solution (some y) ∧ P y ∧ Filled x y
  destroyed_unbroken : ∀ d x, broken? ≠ some (.destroy d x)
  repaired_unbroken : ∀ r x, broken? ≠ some (.repair r x)

variable {e : Engine K X ω} {m : Methods K X σ α τ} {coupling : Coupling} {now : Int}
  {w v u : Setting K (Parts X ω σ α τ)} {xs ys : List (Exchange X)} {broken? : Option (Call X)}
  {P : X → Prop} {Removed Filled : X → X → Prop} {f : Fault K}

theorem Inherits.nil : Inherits P Removed Filled [] none := ⟨by simp, by simp, by simp, by simp⟩

theorem Inherits.append (h : Inherits P Removed Filled xs none)
    (h' : Inherits P Removed Filled ys broken?) :
    Inherits P Removed Filled (xs ++ ys) broken? where
  destroyed := fun d x answer hmem =>
    (List.mem_append.1 hmem).elim (h.destroyed d x answer) (h'.destroyed d x answer)
  repaired := fun r x answer hmem =>
    (List.mem_append.1 hmem).elim (h.repaired r x answer) (h'.repaired r x answer)
  destroyed_unbroken := h'.destroyed_unbroken
  repaired_unbroken := h'.repaired_unbroken

/-! ## 1. One call -/

/-- The calls of a sequence were answered one by one. -/
theorem Performs.exchanged {x : Exchange X} (h : e.Performs m now w xs v) (hx : x ∈ xs) :
    ∃ w' v', e.Exchanged m now w' x v' := by
  induction h with
  | nil => exact absurd hx List.not_mem_nil
  | cons head tail ih =>
    rcases List.mem_cons.1 hx with rfl | hx
    · exact ⟨_, _, head⟩
    · exact ih hx

/-- A call to an operator is answered with what the operator makes. -/
theorem Exchanged.answered {call : Call X} {answer : Answer X} {op : Operator K X ω} {x : X}
    (h : e.Exchanged m now w ⟨call, answer⟩ v)
    (hc : e.callee m now call = .solution <$> apply op x) :
    ∃ y? w' v', answer = .solution y? ∧ result (op x) w' = (.ok y?, v') := by
  obtain ⟨said, h⟩ := h
  rw [hc] at h
  obtain ⟨y?, z, hy, hz, -⟩ := map_on_ok h
  exact ⟨y?, _, z, hy, hz⟩

/-- The call goes to an operator that makes a solution as stated of what the call hands over. -/
def Yields (e : Engine K X ω) (m : Methods K X σ α τ) (now : Int) (call : Call X)
    (Q : X → Prop) : Prop :=
  e.Elsewhere call ∧ ∃ op : Operator K X ω, ∃ x,
    e.callee m now call = .solution <$> apply op x ∧ op.Makes x Q

/-- Such a call is answered with such a solution ... -/
theorem Yields.answered {call : Call X} {answer : Answer X} {Q : X → Prop}
    (h : e.Yields m now call Q) (hex : e.Exchanged m now w ⟨call, answer⟩ v) :
    ∃ y, answer = .solution (some y) ∧ Q y := by
  obtain ⟨-, op, x, hc, hop⟩ := h
  obtain ⟨y?, w', v', rfl, hres⟩ := hex.answered hc
  obtain ⟨y, z, hmade, hy⟩ := hop w'
  rw [hmade, Prod.mk.injEq, Except.ok.injEq] at hres
  exact ⟨y, congrArg _ hres.1.symm, hy⟩

/-- ... and does not break the run off. -/
theorem Yields.not_breaks {call : Call X} {Q : X → Prop} (h : e.Yields m now call Q) :
    ¬e.Breaks m coupling now w call f v := by
  obtain ⟨hcall, op, x, hc, hop⟩ := h
  intro hbreaks
  obtain ⟨said, s, hs | ⟨hs, -⟩⟩ := solution_breaks hc hcall hbreaks <;>
  · obtain ⟨y, z, hmade, -⟩ := hop _
    exact absurd (hmade.symm.trans hs) (by simp)

theorem PassesOn.yields_destroy (h : e.PassesOn P Removed Filled) {d : Nat}
    (hd : d < e.destroy.entries.length) {x : X} (hx : P x) :
    e.Yields m now (.destroy d x) fun y => P y ∧ Removed x y := by
  obtain ⟨op, hop, -, -⟩ := Registry.entry_of_lt (K := K) hd
  exact ⟨hd, op.item, x, callee_destroy m now hop x,
    h.destroy op (Registry.mem_of_entry hop) x hx⟩

theorem PassesOn.yields_repair (h : e.PassesOn P Removed Filled) {r : Nat}
    (hr : r < e.repair.entries.length) {x : X} (hx : P x) :
    e.Yields m now (.repair r x) fun y => P y ∧ Filled x y := by
  obtain ⟨op, hop, -, -⟩ := Registry.entry_of_lt (K := K) hr
  exact ⟨hr, op.item, x, callee_repair m now hop x,
    h.repair op (Registry.mem_of_entry hop) x hx⟩

end Exchanges

/-! ## 2. One round -/

section Runs

variable {K X ω σ α τ : Type} [Solution K X] [LT K] [DecidableLT K]
variable {e : Engine K X ω} {m : Methods K X σ α τ} {coupling : Coupling} {clock : Nat → Int}
  {now : Int} {p q : Progress K X} {w v u : Setting K (Parts X ω σ α τ)} {k : Round X}
  {rounds : List (Round X)} {xs tail : List (Exchange X)} {broken? : Option (Call X)}
  {res : Except (Fault K) (Option (Progress K X))} {initial : X} {P : X → Prop}
  {Removed Filled : X → X → Prop}

/-- The only call of a round to a destroy operator hands over the current solution. -/
theorem destroy_eq {d : Nat} {x : X}
    (h : Call.destroy d x ∈ k.exchanges.map Exchange.call) : d = k.pair.1 ∧ x = k.current := by
  have hcases := k.mem_calls h
  simpa using hcases

/-- The only call of a round to a repair operator is to that of its pair. -/
theorem repair_eq {r : Nat} {x : X}
    (h : Call.repair r x ∈ k.exchanges.map Exchange.call) : r = k.pair.2 := by
  obtain ⟨i, hi⟩ := List.mem_iff_getElem?.1 h
  exact (repair_at k hi).2.1

/-- The beginning of a round with a current solution that has the property. -/
theorem PassesOn.begun (h : e.PassesOn P Removed Filled) (hc : coupling = e.matrix)
    (hlawful : k.Lawful e coupling) (hcurrent : P k.current) (hxs : xs <+: k.exchanges)
    (hcalls : xs.map Exchange.call ++ broken?.toList <+: k.exchanges.map Exchange.call)
    (hperf : e.Performs m now w xs u)
    (hbroken : ∀ call, broken? = some call → ∃ f v, e.Breaks m coupling now u call f v) :
    Inherits P Removed Filled xs broken? := by
  have hk := mayFollow_of_allows (hc ▸ hlawful.permitted)
  have hfollow := repairsFollow_of_begun hk hxs hcalls
  obtain ⟨destroy, repair, hd, hr, -⟩ := hk
  have hyields : e.Yields m now (.destroy k.pair.1 k.current) fun y => P y ∧ Removed k.current y :=
    h.yields_destroy (List.getElem?_eq_some_iff.1 hd).1 hcurrent
  have hyields' : ∀ {x}, P x → e.Yields m now (.repair k.pair.2 x) fun y => P y ∧ Filled x y :=
    fun hx => h.yields_repair (List.getElem?_eq_some_iff.1 hr).1 hx
  have hdestroyed : ∀ d x answer, ⟨.destroy d x, answer⟩ ∈ xs →
      ∃ y, answer = .solution (some y) ∧ P y ∧ Removed x y := by
    intro d x answer hmem
    obtain ⟨rfl, rfl⟩ := destroy_eq (List.mem_map_of_mem (hxs.subset hmem))
    obtain ⟨w', v', hex⟩ := hperf.exchanged hmem
    exact hyields.answered hex
  -- what the repair operator gets is the answer of the destroy operator
  have hgets : ∀ r x, .repair r x ∈ xs.map Exchange.call ++ broken?.toList →
      P x ∧ r = k.pair.2 := by
    intro r x hmem
    obtain ⟨i, hi⟩ := List.mem_iff_getElem?.1 hmem
    obtain ⟨j, d, x', -, hj, -⟩ := hfollow i r x hi
    obtain ⟨y, hy, hP, -⟩ := hdestroyed d x' _ (List.mem_of_getElem? hj)
    cases hy
    exact ⟨hP, repair_eq (hcalls.subset hmem)⟩
  refine ⟨hdestroyed, ?_, ?_, ?_⟩
  · intro r x answer hmem
    obtain ⟨hx, rfl⟩ := hgets r x (List.mem_append_left _ (List.mem_map_of_mem hmem))
    obtain ⟨w', v', hex⟩ := hperf.exchanged hmem
    exact (hyields' hx).answered hex
  · rintro d x rfl
    have hcall : Call.destroy d x ∈ xs.map Exchange.call ++ (some (.destroy d x)).toList := by
      simp
    obtain ⟨rfl, rfl⟩ := destroy_eq (hcalls.subset hcall)
    obtain ⟨f, v, hbreaks⟩ := hbroken _ rfl
    exact hyields.not_breaks hbreaks
  · rintro r x rfl
    obtain ⟨hx, rfl⟩ := hgets r x (by simp)
    obtain ⟨f, v, hbreaks⟩ := hbroken _ rfl
    exact (hyields' hx).not_breaks hbreaks

/-- A round passes the property on, and ends with two solutions that have it. -/
theorem PassesOn.round (h : e.PassesOn P Removed Filled) (hc : coupling = e.matrix)
    (hlawful : k.Lawful e coupling) (hbest : P k.best) (hcurrent : P k.current)
    (hperf : e.Performs m now w k.exchanges u) :
    Inherits P Removed Filled k.exchanges none ∧ P k.nextBest ∧ P k.nextCurrent := by
  have hall : Inherits P Removed Filled k.exchanges none := by
    have hnone : ∀ call, none = some call → ∃ f v, e.Breaks m coupling now u call f v :=
      fun _ h => nomatch h
    exact h.begun hc hlawful hcurrent (List.prefix_refl _) (by simp) hperf hnone
  have hcandidate : P k.candidate := by
    obtain ⟨y, hy, hP, -⟩ := hall.repaired k.pair.2 k.destroyed (.solution (some k.candidate))
      (by simp [Round.exchanges])
    cases hy
    exact hP
  have himproved : P k.improved := by
    unfold Round.improved
    cases hpol : k.polished? with
    | none => exact hcandidate
    | some z =>
      obtain ⟨w', v', hex⟩ : ∃ w' v',
          e.Exchanged m now w' ⟨.onBest k.candidate, .solution (some z)⟩ v' :=
        hperf.exchanged (by simp [Round.exchanges, Round.polishing, hpol])
      obtain ⟨op, hop⟩ := Option.isSome_iff_exists.1 (hlawful.polished_iff.1 (by rw [hpol]; rfl)).1
      obtain ⟨y?, u', v'', hy, hres⟩ := hex.answered (callee_onBest m now hop _)
      cases hy
      exact h.onBest op hop k.candidate hcandidate u' z v'' hres
  refine ⟨hall, ?_, ?_⟩
  · unfold Round.nextBest
    split
    · exact himproved
    · exact hbest
  · unfold Round.nextCurrent
    split
    · exact himproved
    · split
      · exact hcandidate
      · exact hcurrent

/-! ## 3. Whole runs -/

/-- **Rounds pass the property on**, and wherever they lead the two solutions have it. -/
theorem Rounds.inherits (h : e.Rounds m coupling clock p w rounds q u)
    (hc : coupling = e.matrix) (hpass : e.PassesOn P Removed Filled) (hbest : P p.best)
    (hcurrent : P p.current) :
    Inherits P Removed Filled (rounds.flatMap Round.exchanges) none ∧ P q.best ∧ P q.current := by
  induction h with
  | nil => exact ⟨.nil, hbest, hcurrent⟩
  | cons best current lawful performed rest ih =>
    rw [← best] at hbest
    rw [← current] at hcurrent
    obtain ⟨hround, hnext, hnext'⟩ := hpass.round hc lawful hbest hcurrent performed
    obtain ⟨hrest, hq⟩ := ih hnext hnext'
    rw [List.flatMap_cons]
    exact ⟨hround.append hrest, hq⟩

theorem Ends.inherits (h : e.Ends m coupling clock q u tail broken? res v)
    (hc : coupling = e.matrix) (hpass : e.PassesOn P Removed Filled) (hcurrent : P q.current) :
    Inherits P Removed Filled tail broken? := by
  cases h with
  | stopped asked => exact ⟨by simp, by simp, by simp, by simp⟩
  | exhausted => exact .nil
  | failed cut =>
    rw [← cut.current] at hcurrent
    obtain ⟨z, hperf, hbreaks⟩ := cut.interrupted.broken
    refine hpass.begun hc cut.lawful hcurrent cut.interrupted.scripted cut.interrupted.calls hperf
      fun call hcall => ?_
    cases hcall
    exact ⟨_, _, hbreaks⟩

/-- **A run from a solution with the property passes it on**, and if it was stopped then the two
solutions it leaves have the property. -/
theorem Account.inherits
    (h : e.Account m coupling clock initial w rounds tail broken? res v)
    (hc : coupling = e.matrix) (hpass : e.PassesOn P Removed Filled) (hinitial : P initial) :
    Inherits P Removed Filled (rounds.flatMap Round.exchanges ++ tail) broken? ∧
      ∀ p, res = .ok (some p) → P p.best ∧ P p.current := by
  obtain ⟨said, q, u, hrounds, hends⟩ := h.course
  obtain ⟨hall, hbest, hcurrent⟩ := hrounds.inherits hc hpass hinitial hinitial
  refine ⟨hall.append (hends.inherits hc hpass hcurrent), ?_⟩
  rintro p rfl
  cases hends with
  | stopped asked => exact ⟨hbest, hcurrent⟩

end Runs

end Engine

end LargeNeighbourhood
