/-
# What the search does with an answer

The actions of `Engine` each make one call and look at what comes back.  Of each there are two
facts: if it succeeds, the call was answered, and with what; if it fails, the call broke the run
off.  The look-up of an operator by its index cannot fail here, since a permitted pair lies inside
the registries (`Covers`).
-/
import LargeNeighbourhood.Proofs.Coupling
import LargeNeighbourhood.Proofs.Search.Round

namespace LargeNeighbourhood

open Act

/-- An index below the size of a registry has an entry. -/
theorem Registry.entry_eq {K α : Type} {r : Registry α} {i : Nat} (h : i < r.entries.length) :
    r.entry i = (.ok r.entries[i] : Except (Fault K) (Entry α)) := by
  rw [Registry.entry, List.getElem?_eq_getElem h]

theorem Registry.entry_of_lt {K α : Type} {r : Registry α} {i : Nat} (h : i < r.entries.length) :
    ∃ op, r.entry i = (.ok op : Except (Fault K) (Entry α)) ∧ op.name = r.nameAt i ∧
      r.entries[i]? = some op := by
  have hget : r.entries[i]? = some r.entries[i] := List.getElem?_eq_getElem h
  exact ⟨r.entries[i], Registry.entry_eq h, by rw [Registry.nameAt, hget]; rfl, hget⟩

theorem Registry.mem_of_entry {K α : Type} {r : Registry α} {i : Nat} {op : Entry α}
    (h : r.entry i = (.ok op : Except (Fault K) (Entry α))) : op ∈ r.entries := by
  unfold Registry.entry at h
  split at h
  · rename_i hget
    cases h
    exact List.mem_of_getElem? hget
  · cases h

namespace Engine

variable {K X ω σ α τ : Type}
variable {e : Engine K X ω} {m : Methods K X σ α τ} {coupling : Coupling} {now : Int}
  {p : Progress K X} {w v : Setting K (Parts X ω σ α τ)} {f : Fault K}

/-- The coupling marks registered operators only, and some of them. -/
structure Covers (e : Engine K X ω) (coupling : Coupling) : Prop where
  exists_pair : ∃ d r, coupling.allows d r = true
  destroy_lt : ∀ d r, coupling.allows d r = true → d < e.destroy.entries.length
  repair_lt : ∀ d r, coupling.allows d r = true → r < e.repair.entries.length

/-! ## 1. Stopping and selecting -/

variable (e) in
theorem shouldStop_ok {stop : Bool} (h : result (shouldStop m now p) w = (.ok stop, v)) :
    e.Exchanged m now w ⟨.shouldStop p.best p.current, .verdict stop⟩ v := by
  simp only [shouldStop, result_bind, result_enter] at h
  exact exchanged_of_ok rfl h

variable (e) (coupling) in
theorem shouldStop_error (h : result (shouldStop m now p) w = (.error f, v)) :
    e.Breaks m coupling now w (.shouldStop p.best p.current) f v := by
  simp only [shouldStop, result_bind, result_enter] at h
  exact breaks_of_error rfl h

variable (e) (now) in
theorem select_ok {dr : Nat × Nat} (h : result (select m coupling p) w = (.ok dr, v)) :
    coupling.allows dr.1 dr.2 = true ∧
      e.Exchanged m now w ⟨.select p.best p.current, .pair (Pair.ofNat dr)⟩ v := by
  unfold select at h
  rw [result_bind, result_enter, bind_ok_iff] at h
  obtain ⟨pair, u, hs, h⟩ := h
  split at h
  · rename_i dr' hl
    simp only [result_pure, Prod.mk.injEq, Except.ok.injEq] at h
    obtain ⟨rfl, rfl⟩ := h
    obtain ⟨hp, ha⟩ := Coupling.legal?_eq_some hl
    rw [hp] at hs
    exact ⟨ha, exchanged_of_ok rfl hs⟩
  · exact absurd h (by simp)

variable (e) (now) in
theorem select_error (h : result (select m coupling p) w = (.error f, v)) :
    e.Breaks m coupling now w (.select p.best p.current) f v := by
  unfold select at h
  rw [result_bind, result_enter, bind_error_iff] at h
  rcases h with hs | ⟨pair, u, hs, h⟩
  · exact breaks_of_error rfl hs
  · split at h
    · exact absurd h (by simp)
    · rename_i hl
      simp only [result_throw, Prod.mk.injEq, Except.error.injEq] at h
      obtain ⟨rfl, rfl⟩ := h
      exact Or.inr ⟨.pair pair, exchanged_of_ok rfl hs, by simp [refusal, hl]⟩

/-! ## 2. Asking for a solution

The two operators and the callback are asked alike: they answer with a solution, or with none,
which the search refuses. -/

section Solutions

variable {call : Call X} {act : Act K (Parts X ω σ α τ) (Option X)} {β : Type} {g : X → β}
  {missing : Fault K}

theorem solution_ok {b : β} (hc : e.callee m now call = .solution <$> act)
    (h : result (act >>= fun y? => match y? with
      | some y => pure (g y)
      | none => throw missing) (entering w call) = (.ok b, v)) :
    ∃ y, b = g y ∧ e.Exchanged m now w ⟨call, .solution (some y)⟩ v := by
  rw [bind_ok_iff] at h
  obtain ⟨y?, u, ha, h⟩ := h
  cases y? with
  | none => exact absurd h (by simp)
  | some y =>
    simp only [result_pure, Prod.mk.injEq, Except.ok.injEq] at h
    obtain ⟨rfl, rfl⟩ := h
    exact ⟨y, rfl, exchanged_of_ok hc ha⟩

theorem solution_error (hc : e.callee m now call = .solution <$> act)
    (hr : e.refusal coupling call (.solution none) = some missing)
    (h : result (act >>= fun y? => match y? with
      | some y => pure (g y)
      | none => throw missing) (entering w call) = (.error f, v)) :
    e.Breaks m coupling now w call f v := by
  rw [bind_error_iff] at h
  rcases h with ha | ⟨y?, u, ha, h⟩
  · exact breaks_of_error hc ha
  · cases y? with
    | some y => exact absurd h (by simp)
    | none =>
      simp only [result_throw, Prod.mk.injEq, Except.error.injEq] at h
      obtain ⟨rfl, rfl⟩ := h
      exact Or.inr ⟨.solution none, exchanged_of_ok hc ha, hr⟩

end Solutions

section Operators

variable (m) (now)

theorem callee_destroy {d : Nat} {op : Entry (Operator K X ω)}
    (hop : e.destroy.entry d = (.ok op : Except (Fault K) _)) (x : X) :
    e.callee m now (.destroy d x) = .solution <$> apply op.item x := by
  simp only [callee, hop]
  rfl

theorem callee_repair {r : Nat} {op : Entry (Operator K X ω)}
    (hop : e.repair.entry r = (.ok op : Except (Fault K) _)) (x : X) :
    e.callee m now (.repair r x) = .solution <$> apply op.item x := by
  simp only [callee, hop]
  rfl

theorem callee_onBest {op : Operator K X ω} (hop : e.onBest? = some op) (x : X) :
    e.callee m now (.onBest x) = .solution <$> apply op x := by
  simp only [callee, hop]

end Operators

variable (m) (now) in
theorem destroyAt_ok {d : Nat} {x y : X} {name : String} (hd : d < e.destroy.entries.length)
    (h : result (e.destroyAt d x) w = (.ok (name, y), v)) :
    name = e.destroy.nameAt d ∧
      e.Exchanged m now w ⟨.destroy d x, .solution (some y)⟩ v := by
  obtain ⟨op, hop, hname, -⟩ := Registry.entry_of_lt (K := K) hd
  rw [destroyAt, result_bind, hop, result_ofExcept] at h
  obtain ⟨z, hz, hx⟩ := solution_ok (callee_destroy m now hop x) h
  cases hz
  exact ⟨hname, hx⟩

variable (m) (coupling) (now) in
theorem destroyAt_error {d : Nat} {x : X} (hd : d < e.destroy.entries.length)
    (h : result (e.destroyAt d x) w = (.error f, v)) :
    e.Breaks m coupling now w (.destroy d x) f v := by
  obtain ⟨op, hop, -, hget⟩ := Registry.entry_of_lt (K := K) hd
  rw [destroyAt, result_bind, hop, result_ofExcept] at h
  exact solution_error (callee_destroy m now hop x) (by simp [refusal, hget]) h

variable (m) (now) in
theorem repairAt_ok {r : Nat} {x y : X} {name : String} (hr : r < e.repair.entries.length)
    (h : result (e.repairAt r x) w = (.ok (name, y), v)) :
    name = e.repair.nameAt r ∧
      e.Exchanged m now w ⟨.repair r x, .solution (some y)⟩ v := by
  obtain ⟨op, hop, hname, -⟩ := Registry.entry_of_lt (K := K) hr
  rw [repairAt, result_bind, hop, result_ofExcept] at h
  obtain ⟨z, hz, hx⟩ := solution_ok (callee_repair m now hop x) h
  cases hz
  exact ⟨hname, hx⟩

variable (m) (coupling) (now) in
theorem repairAt_error {r : Nat} {x : X} (hr : r < e.repair.entries.length)
    (h : result (e.repairAt r x) w = (.error f, v)) :
    e.Breaks m coupling now w (.repair r x) f v := by
  obtain ⟨op, hop, -, hget⟩ := Registry.entry_of_lt (K := K) hr
  rw [repairAt, result_bind, hop, result_ofExcept] at h
  exact solution_error (callee_repair m now hop x) (by simp [refusal, hget]) h

/-! ## 3. Judging and reporting -/

variable (e) (now) in
theorem accepts_ok {y : X} {accepted : Bool}
    (h : result (accepts m p y) w = (.ok accepted, v)) :
    e.Exchanged m now w ⟨.accept p.best p.current y, .verdict accepted⟩ v := by
  rw [accepts, result_bind, result_enter] at h
  exact exchanged_of_ok rfl h

variable (e) (coupling) (now) in
theorem accepts_error {y : X} (h : result (accepts m p y) w = (.error f, v)) :
    e.Breaks m coupling now w (.accept p.best p.current y) f v := by
  rw [accepts, result_bind, result_enter] at h
  exact breaks_of_error rfl h

variable (e) (now) in
theorem report_ok {y : X} {pair : Pair} {o : Outcome}
    (h : result (report m y pair o) w = (.ok (), v)) :
    e.Exchanged m now w ⟨.update y pair o, .noted⟩ v := by
  rw [report, result_bind, result_enter] at h
  exact exchanged_of_ok (b := ()) rfl h

variable (e) (coupling) (now) in
theorem report_error {y : X} {pair : Pair} {o : Outcome}
    (h : result (report m y pair o) w = (.error f, v)) :
    e.Breaks m coupling now w (.update y pair o) f v := by
  rw [report, result_bind, result_enter] at h
  exact breaks_of_error rfl h

/-- Without a callback a new best solution stays what it is. -/
theorem polish_none (he : e.onBest? = none) (y : X) :
    result (e.polish y : Act K (Parts X ω σ α τ) X) w = (.ok y, w) := by
  rw [polish, he]
  rfl

variable (m) (now) in
theorem polish_ok {op : Operator K X ω} (he : e.onBest? = some op) {y z : X}
    (h : result (e.polish y) w = (.ok z, v)) :
    e.Exchanged m now w ⟨.onBest y, .solution (some z)⟩ v := by
  rw [polish, he] at h
  obtain ⟨z', hz, hx⟩ := solution_ok (g := id) (callee_onBest m now he y) h
  cases hz
  exact hx

variable (m) (coupling) (now) in
theorem polish_error {op : Operator K X ω} (he : e.onBest? = some op) {y : X}
    (h : result (e.polish y) w = (.error f, v)) :
    e.Breaks m coupling now w (.onBest y) f v := by
  rw [polish, he] at h
  exact solution_error (g := id) (callee_onBest m now he y) rfl h

end Engine

end LargeNeighbourhood
