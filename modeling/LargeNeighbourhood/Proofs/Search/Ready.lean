/-
# What the checks before a run establish

`Engine.prepare` refuses a run whose operators, initial solution and scheme do not fit.  What a
run that was not refused may rely on is `Engine.Ready`: the coupling is that of the registrations,
every destroy operator has a partner, and a pair that the scheme allows is permitted.
-/
import LargeNeighbourhood.Proofs.Checks
import LargeNeighbourhood.Proofs.Registry
import LargeNeighbourhood.Proofs.Search.Calls
import LargeNeighbourhood.Proofs.Search.Restrictions

namespace LargeNeighbourhood

namespace Engine

variable {K X ω : Type} {e : Engine K X ω} {scheme coupling : Coupling}

/-- What a run may rely on once it has begun. -/
structure Ready (e : Engine K X ω) (scheme coupling : Coupling) : Prop where
  coupling_eq : coupling = e.matrix
  known : e.dangling? = none
  usable : e.matrix.Usable
  numDestroy_eq : scheme.numDestroy = e.destroy.size
  numRepair_eq : scheme.numRepair = e.repair.size
  allows_of_scheme : ∀ d r, scheme.allows d r = true → coupling.allows d r = true

/-! ## 1. The checks one by one -/

/-- A repair operator names no unknown destroy operator if all that it names are registered. -/
theorem unknownAmong?_eq_none_iff {names : NameSet} :
    e.unknownAmong? names = none ↔ ∀ d ∈ names, d ∈ e.destroy.names := by
  unfold unknownAmong?
  rw [List.find?_eq_none]
  refine forall₂_congr fun d _ => ?_
  rw [Option.isNone_iff_eq_none, Registry.indexOf?_eq_none_iff, Decidable.not_not]

theorem dangling?_eq_none_iff :
    e.dangling? = none ↔ ∀ repair ∈ e.repair.names, ∀ set, e.onlyAfter.find? repair = some set →
      ∀ d ∈ set, d ∈ e.destroy.names := by
  unfold dangling?
  rw [List.findSome?_eq_none_iff]
  refine forall₂_congr fun repair _ => ?_
  unfold danglingAt?
  rw [Option.bind_eq_none_iff]
  refine forall₂_congr fun set _ => ?_
  rw [Option.map_eq_none_iff, unknownAmong?_eq_none_iff]

theorem uncoupledName?_eq_none_iff :
    e.uncoupledName? = none ↔ ∀ d < e.destroy.size, ∃ r, e.matrix.allows d r = true := by
  unfold uncoupledName?
  rw [Option.map_eq_none_iff, List.find?_eq_none]
  constructor
  · intro h d hd
    obtain ⟨name, hname⟩ := Registry.exists_name hd
    have hrow := h (name, d) (List.mem_zipIdx_iff_getElem?.2 hname)
    rw [List.isEmpty_iff] at hrow
    exact Coupling.partners_ne_nil_iff.1 hrow
  · intro h x hx
    rw [List.isEmpty_iff]
    exact Coupling.partners_ne_nil_iff.2 (h x.2 (Registry.lt_size_of_mem_zipIdx hx))

/-- **The registrations imply a coupling** where every destroy operator that is named is registered
and each registered one has a partner, and then it is the matrix of what they permit. -/
theorem coupling_eq_ok_iff :
    e.coupling = .ok coupling ↔ e.matrix = coupling ∧ e.dangling? = none ∧
      ∀ d < e.destroy.size, ∃ r, e.matrix.allows d r = true := by
  rw [coupling_eq, ← uncoupledName?_eq_none_iff]
  split
  · rename_i hd
    simp [hd]
  · rename_i hd
    split
    · rename_i hu
      simp [hu]
    · rename_i hu
      simp [hd, hu]

/-- Where they imply none, that is for an argument that makes no sense. -/
theorem kind_of_coupling {f : Fault K} (h : e.coupling = .error f) :
    f.kind = .invalidArgument := by
  rw [coupling_eq] at h
  split at h
  · cases h
    rfl
  · split at h
    · cases h
      rfl
    · exact absurd h (by simp)

/-- The coupling of the registrations has no destroy operator without a partner. -/
theorem coupling_ok (hd : 0 < e.destroy.size) (hr : 0 < e.repair.size)
    (h : e.coupling = .ok coupling) :
    coupling = e.matrix ∧ e.dangling? = none ∧ e.matrix.Usable := by
  obtain ⟨rfl, hdangling, hpartner⟩ := coupling_eq_ok_iff.1 h
  exact ⟨rfl, hdangling, hd, hr, fun d hlt => Coupling.partners_ne_nil_iff.2 (hpartner d hlt)⟩

/-- **The check of a pair reads inside both matrices**, and finds out whether the scheme allows what
the coupling forbids. -/
theorem checkPair_eq {d r : Nat} (hscheme : d < scheme.numDestroy ∧ r < scheme.numRepair)
    (hcoupling : d < coupling.numDestroy ∧ r < coupling.numRepair)
    (hregistered : d < e.destroy.entries.length ∧ r < e.repair.entries.length) :
    (e.checkPair scheme coupling d r : Except (Fault K) Unit) =
      if scheme.allows d r = true ∧ coupling.allows d r = false then
        .error (.schemeForbidden e.destroy.entries[d].name e.repair.entries[r].name)
      else .ok () := by
  unfold checkPair
  rw [Coupling.mark_eq hscheme, Coupling.mark_eq hcoupling, Registry.entry_eq hregistered.1,
    Registry.entry_eq hregistered.2]
  cases scheme.allows d r with
  | false => rfl
  | true =>
    cases coupling.allows d r with
    | false => rfl
    | true => rfl

/-- A pair of the coupling of an engine, for a scheme that counts the same operators, is inside both
matrices and registered. -/
theorem checkPair_of_matrix (hd : scheme.numDestroy = e.destroy.size)
    (hr : scheme.numRepair = e.repair.size) {d r : Nat} (hdlt : d < e.matrix.numDestroy)
    (hrlt : r < e.matrix.numRepair) :
    (e.checkPair scheme e.matrix d r = .ok () ↔
      (scheme.allows d r = true → e.matrix.allows d r = true)) ∧
    ∀ f : Fault K, e.checkPair scheme e.matrix d r = .error f →
      scheme.allows d r = true ∧ e.matrix.allows d r = false ∧ f.kind = .invalidArgument := by
  rw [checkPair_eq ⟨hd ▸ hdlt, hr ▸ hrlt⟩ ⟨hdlt, hrlt⟩ ⟨hdlt, hrlt⟩]
  split
  · rename_i h
    simp only [reduceCtorEq, false_iff, Except.error.injEq, forall_eq']
    exact ⟨fun hall => by simp [hall h.1] at h, h.1, h.2, rfl⟩
  · rename_i h
    simp only [true_iff, reduceCtorEq, false_imp_iff, implies_true, and_true]
    intro hs
    by_contra hnot
    exact h ⟨hs, Bool.eq_false_iff.2 hnot⟩

/-- **The check of a scheme**, against the coupling of the registrations. -/
theorem checkScheme_ok_iff : (e.checkScheme scheme e.matrix : Except (Fault K) Unit) = .ok () ↔
    scheme.numDestroy = e.destroy.size ∧ scheme.numRepair = e.repair.size ∧
      ∀ d r, scheme.allows d r = true → e.matrix.allows d r = true := by
  unfold checkScheme
  rw [Checks.guard_ok_iff, not_or, Decidable.not_not, Decidable.not_not, and_assoc]
  refine and_congr_right fun hd => and_congr_right fun hr => ?_
  simp only [Checks.forM_ok_iff, List.mem_range]
  constructor
  · intro h d r hs
    obtain ⟨hdlt, hrlt⟩ := Coupling.lt_of_allows hs
    rw [hd] at hdlt
    rw [hr] at hrlt
    exact (checkPair_of_matrix hd hr hdlt hrlt).1.1 (h d hdlt r hrlt) hs
  · exact fun h d hdlt r hrlt => (checkPair_of_matrix hd hr hdlt hrlt).1.2 (h d r)

theorem checkScheme_error {f : Fault K} (h : e.checkScheme scheme e.matrix = .error f) :
    f.kind = .invalidArgument ∧
      ((scheme.numDestroy ≠ e.destroy.size ∨ scheme.numRepair ≠ e.repair.size) ∨
        ∃ d r, scheme.allows d r = true ∧ e.matrix.allows d r = false) := by
  unfold checkScheme at h
  rcases Checks.guard_error_iff.1 h with ⟨hsize, rfl⟩ | ⟨hsize, h⟩
  · exact ⟨rfl, Or.inl hsize⟩
  · rw [not_or, Decidable.not_not, Decidable.not_not] at hsize
    obtain ⟨d, hd, h⟩ := Checks.exists_of_forM_error h
    obtain ⟨r, hr, h⟩ := Checks.exists_of_forM_error h
    obtain ⟨hallowed, hforbidden, hkind⟩ := (checkPair_of_matrix hsize.1 hsize.2
      (List.mem_range.1 hd) (List.mem_range.1 hr)).2 f h
    exact ⟨hkind, Or.inr ⟨d, r, hallowed, hforbidden⟩⟩

/-! ## 2. All checks -/

/-- **A run that was not refused is ready.** -/
theorem ready_of_prepare {initial? : Option X} {initial : X}
    (h : e.prepare scheme initial? = .ok (initial, coupling)) :
    initial? = some initial ∧ e.Ready scheme coupling := by
  unfold prepare at h
  obtain ⟨hempty, h⟩ := Checks.guard_ok_iff.1 h
  rw [Bool.or_eq_true, not_or, List.isEmpty_iff, List.isEmpty_iff] at hempty
  have hd : 0 < e.destroy.size := List.length_pos_iff.2 hempty.1
  have hr : 0 < e.repair.size := List.length_pos_iff.2 hempty.2
  split at h
  · exact absurd h (by simp [Checks.throw_ok_iff])
  · obtain ⟨c, hc, h⟩ := Checks.bind_ok_iff.1 h
    obtain ⟨⟨⟩, hs, h⟩ := Checks.bind_ok_iff.1 h
    cases Checks.pure_ok_iff.1 h
    obtain ⟨rfl, hk, hu⟩ := coupling_ok hd hr hc
    obtain ⟨hsd, hsr, hallowed⟩ := checkScheme_ok_iff.1 hs
    exact ⟨rfl, rfl, hk, hu, hsd, hsr, hallowed⟩

/-- Of the initial solution it is only checked that there is one. -/
theorem prepare_some {initial : X} (h : e.prepare scheme (some initial) = .ok (initial, coupling))
    (x : X) : e.prepare scheme (some x) = .ok (x, coupling) := by
  unfold prepare at h ⊢
  obtain ⟨hempty, h⟩ := Checks.guard_ok_iff.1 h
  obtain ⟨c, hc, h⟩ := Checks.bind_ok_iff.1 h
  obtain ⟨⟨⟩, hs, h⟩ := Checks.bind_ok_iff.1 h
  cases Checks.pure_ok_iff.1 h
  exact Checks.guard_ok_iff.2 ⟨hempty, Checks.bind_ok_iff.2
    ⟨_, hc, Checks.bind_ok_iff.2 ⟨_, hs, Checks.pure_ok_iff.2 rfl⟩⟩⟩

/-- A run is refused for an argument that makes no sense. -/
theorem kind_of_refused {initial? : Option X} {f : Fault K}
    (h : e.prepare scheme initial? = .error f) : f.kind = .invalidArgument := by
  unfold prepare at h
  rcases Checks.guard_error_iff.1 h with ⟨-, rfl⟩ | ⟨-, h⟩
  · rfl
  split at h
  · cases Checks.throw_error_iff.1 h
    rfl
  rcases Checks.bind_error_iff.1 h with hc | ⟨c, hc, h⟩
  · exact kind_of_coupling hc
  obtain ⟨rfl, -⟩ := coupling_eq_ok_iff.1 hc
  rcases Checks.bind_error_iff.1 h with hs | ⟨-, -, h⟩
  · exact (checkScheme_error hs).1
  · exact absurd h (by simp [Checks.pure_error_iff])

/-- The coupling of a run that is ready marks registered operators only. -/
theorem Ready.covers (h : e.Ready scheme coupling) : e.Covers coupling := by
  have hlt : ∀ d r, coupling.allows d r = true →
      d < e.destroy.entries.length ∧ r < e.repair.entries.length := by
    intro d r ha
    rw [h.coupling_eq] at ha
    exact Coupling.lt_of_allows ha
  refine ⟨?_, fun d r ha => (hlt d r ha).1, fun d r ha => (hlt d r ha).2⟩
  rw [h.coupling_eq]
  exact h.usable.exists_allows

end Engine

end LargeNeighbourhood
