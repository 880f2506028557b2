/-
# Which runs are refused

What a run needs of its configuration is checked before its first call.  `Engine.Misfit` lists what
can be wrong with a configuration, apart from how and in which order the checks look for it: there
are no operators of one kind, there is no initial solution, the registrations imply no coupling, the
scheme counts other operators than are registered, or it allows a pair that the coupling forbids.

The checks fail exactly where something on the list is wrong (`prepare_error_iff`).  Scheme and
coupling are compared row by row, over the pairs of the coupling; since the counts agree by then,
every pair is read inside both matrices (`checkPair_eq`), and none that the scheme allows is left
out (`checkScheme_ok_iff`).

So a run with a misfit fails, and that is all it does; any other run asks first of all whether to
stop, with the initial solution as the best and as the current one (`run_refused_or_asks`).
-/
import Mathlib
import LargeNeighbourhood.Proofs.Search.Protocol

namespace LargeNeighbourhood

open Act

namespace Engine

/-! ## 1. Misfits -/

section Misfits

variable {K X ω : Type} {e : Engine K X ω} {scheme coupling : Coupling} {initial? : Option X}

/-- A configuration that no run can begin with. -/
inductive Misfit (e : Engine K X ω) (scheme : Coupling) (initial? : Option X) : Prop
  | noDestroy (h : e.destroy.entries = [])
  | noRepair (h : e.repair.entries = [])
  | noInitial (h : initial? = none)
  | noCoupling {f : Fault K} (h : e.coupling = .error f)
  | otherSize (h : scheme.numDestroy ≠ e.destroy.size ∨ scheme.numRepair ≠ e.repair.size)
  | forbiddenPair {coupling : Coupling} {d r : Nat} (implied : e.coupling = .ok coupling)
      (allowed : scheme.allows d r = true) (forbidden : coupling.allows d r = false)

theorem misfit_of_checkScheme {f : Fault K} (hc : e.coupling = .ok coupling)
    (h : e.checkScheme scheme coupling = .error f) : e.Misfit scheme initial? := by
  obtain ⟨rfl, -⟩ := coupling_eq_ok_iff.1 hc
  rcases (checkScheme_error h).2 with hsize | ⟨d, r, hallowed, hforbidden⟩
  · exact .otherSize hsize
  · exact .forbiddenPair hc hallowed hforbidden

/-- What the checks refuse is a misfit. -/
theorem misfit_of_refused {f : Fault K} (h : e.prepare scheme initial? = .error f) :
    e.Misfit scheme initial? := by
  unfold prepare at h
  rcases Checks.guard_error_iff.1 h with ⟨hempty, -⟩ | ⟨-, h⟩
  · rw [Bool.or_eq_true, List.isEmpty_iff, List.isEmpty_iff] at hempty
    rcases hempty with hd | hr
    · exact .noDestroy hd
    · exact .noRepair hr
  split at h
  · exact .noInitial rfl
  rcases Checks.bind_error_iff.1 h with hc | ⟨c, hc, h⟩
  · exact .noCoupling hc
  rcases Checks.bind_error_iff.1 h with hs | ⟨-, -, h⟩
  · exact misfit_of_checkScheme hc hs
  · exact absurd h (by simp [Checks.pure_error_iff])

/-- What the registrations of a run that is ready imply. -/
theorem Ready.coupling_ok (h : e.Ready scheme coupling) : e.coupling = .ok coupling :=
  coupling_eq_ok_iff.2 ⟨h.coupling_eq.symm, h.known, fun d hd =>
    Coupling.partners_ne_nil_iff.1 (h.usable.partners_ne_nil d hd)⟩

/-- What the checks let pass is none. -/
theorem not_misfit_of_prepare {initial : X}
    (h : e.prepare scheme initial? = .ok (initial, coupling)) : ¬e.Misfit scheme initial? := by
  obtain ⟨hinitial, ready⟩ := ready_of_prepare h
  intro hmisfit
  cases hmisfit with
  | noDestroy hnil => exact (List.length_pos_iff.1 ready.usable.destroy_pos) hnil
  | noRepair hnil => exact (List.length_pos_iff.1 ready.usable.repair_pos) hnil
  | noInitial hnone => exact absurd (hnone.symm.trans hinitial) (by simp)
  | noCoupling herror => exact absurd (herror.symm.trans ready.coupling_ok) (by simp)
  | otherSize hsize =>
    rcases hsize with hd | hr
    · exact hd ready.numDestroy_eq
    · exact hr ready.numRepair_eq
  | forbiddenPair implied allowed forbidden =>
    cases implied.symm.trans ready.coupling_ok
    rw [ready.allows_of_scheme _ _ allowed] at forbidden
    exact absurd forbidden (by simp)

/-- **The checks before a run refuse the misfits.** -/
theorem prepare_error_iff :
    (∃ f : Fault K, e.prepare scheme initial? = .error f) ↔ e.Misfit scheme initial? := by
  constructor
  · rintro ⟨f, h⟩
    exact misfit_of_refused h
  · intro hmisfit
    rcases hp : e.prepare scheme initial? with f | ⟨initial, coupling⟩
    · exact ⟨f, rfl⟩
    · exact absurd hmisfit (not_misfit_of_prepare hp)

end Misfits

/-! ## 2. The first call -/

section Runs

variable {K X ω σ α τ : Type} [Solution K X] [LT K] [DecidableLT K]
variable {e : Engine K X ω} {m : Methods K X σ α τ} {coupling : Coupling} {clock : Nat → Int}
  {p q : Progress K X} {w v u : Setting K (Parts X ω σ α τ)} {rounds : List (Round X)}
  {tail : List (Exchange X)} {broken? : Option (Call X)}
  {res : Except (Fault K) (Option (Progress K X))} {initial : X}

/-- A loop with fuel asks first of all whether to stop. -/
theorem exists_loop_eq_ask (e : Engine K X ω) (m : Methods K X σ α τ) (coupling : Coupling)
    (clock : Nat → Int) (fuel : Nat) (p : Progress K X) :
    ∃ next, e.loop m coupling clock (fuel + 1) p
      = shouldStop m (clock (2 * p.statistics.iterations + 1)) p >>= next :=
  ⟨_, rfl⟩

/-- However a run ends, unless for want of fuel, the question comes first. -/
theorem Ends.calls_eq (h : e.Ends m coupling clock p w tail broken? res v) (hres : res ≠ .ok none) :
    ∃ calls, tail.map Exchange.call ++ broken?.toList
      = .shouldStop p.best p.current :: calls := by
  cases h with
  | stopped asked => exact ⟨[], rfl⟩
  | exhausted => exact absurd rfl hres
  | failed cut =>
    -- a round that was broken off has made a beginning of its calls
    obtain ⟨rest, hrest⟩ := cut.interrupted.calls
    rw [← cut.best, ← cut.current]
    cases tail with
    | nil =>
      cases hrest
      exact ⟨[], rfl⟩
    | cons x answered =>
      obtain ⟨rfl, -⟩ := List.cons_prefix_cons.1 cut.interrupted.scripted
      exact ⟨_, rfl⟩

/-- The first call of a run with fuel. -/
theorem Account.calls_eq
    (h : e.Account m coupling clock initial w rounds tail broken? res v)
    (hfuel : res = .ok none → rounds ≠ []) :
    ∃ calls, v.own.journal.toList
      = w.own.journal.toList ++ .shouldStop initial initial :: calls := by
  obtain ⟨said, q, u, hrounds, hends⟩ := h.course
  rw [h.journal, List.append_assoc]
  cases hrounds with
  | nil =>
    obtain ⟨calls, hcalls⟩ := hends.calls_eq fun hres => hfuel hres rfl
    exact ⟨calls, by rw [List.flatMap_nil, List.nil_append, hcalls]; rfl⟩
  | cons best current lawful performed rest =>
    rw [List.flatMap_cons, Round.exchanges, best, current]
    exact ⟨_, rfl⟩

/-! ## 3. Whole runs -/

/-- **A run is refused before it does anything, or it begins by asking whether to stop.**  With a
misfit it fails for an argument that makes no sense; the collaborators, the operators' world, the
generator, the journal and the log are as they were, whatever fuel there is.  In any other
configuration the checks pass, the run says lines at most before it asks its rule, and that
question, about the initial solution as the best and the current one, is its first call. -/
theorem run_refused_or_asks (e : Engine K X ω) (m : Methods K X σ α τ) (clock : Nat → Int)
    (initial? : Option X) (w : Setting K (Parts X ω σ α τ)) :
    (e.Misfit (m.selector.coupling w.own.scheme) initial? →
      ∃ f : Fault K, f.kind = .invalidArgument ∧
        ∀ fuel, result (e.run m clock fuel initial?) w = (.error f, w)) ∧
    (¬e.Misfit (m.selector.coupling w.own.scheme) initial? →
      ∃ initial coupling, initial? = some initial ∧
        e.prepare (m.selector.coupling w.own.scheme) initial? = .ok (initial, coupling) ∧
        ∀ fuel, (∃ said next, result (e.run m clock (fuel + 1) initial?) w
            = result (shouldStop m (clock 1) (opening (clock 0) initial) >>= next)
              (w.saying said)) ∧
          ∃ calls, (result (e.run m clock (fuel + 1) initial?) w).2.own.journal.toList
            = w.own.journal.toList ++ .shouldStop initial initial :: calls) := by
  constructor
  · intro hmisfit
    obtain ⟨f, hrefused⟩ := prepare_error_iff.2 hmisfit
    exact ⟨f, kind_of_refused hrefused, fun fuel => run_refused fuel hrefused⟩
  · intro hfit
    rcases hp : e.prepare (m.selector.coupling w.own.scheme) initial? with
      f | ⟨initial, coupling⟩
    · exact absurd (prepare_error_iff.1 ⟨f, hp⟩) hfit
    · refine ⟨initial, coupling, (ready_of_prepare hp).1, rfl, fun fuel => ⟨?_, ?_⟩⟩
      · obtain ⟨said, hrun⟩ := run_eq_loop clock (fuel + 1) hp
        obtain ⟨next, hloop⟩ := exists_loop_eq_ask e m coupling clock fuel
          (opening (clock 0) initial)
        exact ⟨said, next, hrun.trans (by rw [hloop]; rfl)⟩
      · rcases hrun : result (e.run m clock (fuel + 1) initial?) w with ⟨res, v⟩
        obtain ⟨rounds, tail, broken?, haccount, hlength⟩ := exists_account hp hrun
        refine haccount.calls_eq fun hres hnil => ?_
        have hlen := hlength hres
        rw [hnil] at hlen
        exact absurd hlen (by simp)

end Runs

end Engine

open Countdown in
/-- A countdown from nowhere is refused; a countdown from two asks about two. -/
theorem run_refused_or_asks_countdown :
    (∃ f : Fault Int, f.kind = .invalidArgument ∧
      result (engine.run (methods firstPair everyLevel 1) (fun n => (n : Int)) 3 none)
        (setting () ()) = (.error f, setting () ())) ∧
    ∃ calls, ran.2.own.journal.toList = .shouldStop ⟨2⟩ ⟨2⟩ :: calls := by
  obtain ⟨hrefused, -⟩ := Engine.run_refused_or_asks (engine : Engine Int (Level Int) Unit)
    (methods firstPair everyLevel 1) (fun n => (n : Int)) none (setting () ())
  obtain ⟨-, hasks⟩ := Engine.run_refused_or_asks (engine : Engine Int (Level Int) Unit)
    (methods firstPair everyLevel 1) (fun n => (n : Int)) (some ⟨2⟩) (setting () ())
  constructor
  · obtain ⟨f, hkind, hrun⟩ := hrefused (.noInitial rfl)
    exact ⟨f, hkind, hrun 3⟩
  · obtain ⟨initial, coupling, hinitial, -, hcalls⟩ :=
      hasks (Engine.not_misfit_of_prepare (prepare_countdown (⟨2⟩ : Level Int)))
    cases hinitial
    obtain ⟨-, calls, hjournal⟩ := hcalls 2
    have hempty : (setting () () : Setting Int _).own.journal.toList
        = ([] : List (Call (Level Int))) := rfl
    refine ⟨calls, ?_⟩
    rw [ran, hjournal, hempty, List.nil_append]

end LargeNeighbourhood
