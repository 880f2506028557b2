/-
# Roulette wheels turn

What keeps a wheel able to draw is `Roulette.Turning`: there is a weight for every operator, and
all weights are positive.  Reports keep them so, since a weight never falls below the floor, and
the floor is positive.

A draw of such a wheel either is a legal pair or stops at a destroy operator without partners
(`Roulette.draw_cases`).  The coupling may have been edited, so `Turning` does not ask that it be
usable; where it is, a draw succeeds.
-/
import Mathlib
import LargeNeighbourhood.Proofs.Act
import LargeNeighbourhood.Proofs.Checks
import LargeNeighbourhood.Proofs.Coupling
import LargeNeighbourhood.Proofs.Random.Draws
import LargeNeighbourhood.Selection.Roulette

namespace LargeNeighbourhood

open Act

/-! ## 1. Lists of weights -/

/-- What all entries have and the new one has, all entries have after one was modified. -/
theorem forall_mem_modify {α : Type} {P : α → Prop} {f : α → α} {l : List α} (h : ∀ x ∈ l, P x)
    (hf : ∀ x, P (f x)) (i : Nat) : ∀ x ∈ l.modify i f, P x := by
  intro x hx
  obtain ⟨j, hj, rfl⟩ := List.mem_iff_getElem.1 hx
  rw [List.getElem_modify]
  split
  · exact hf _
  · exact h _ (List.getElem_mem _)

theorem forall_mem_zipWith {α β γ : Type} {P : γ → Prop} {f : α → β → γ} (hf : ∀ a b, P (f a b))
    (as : List α) (bs : List β) : ∀ x ∈ List.zipWith f as bs, P x := by
  intro x hx
  obtain ⟨j, hj, rfl⟩ := List.mem_iff_getElem.1 hx
  rw [List.getElem_zipWith]
  exact hf _ _

/-- The coupling of a new scheme has the shape asked for. -/
theorem Coupling.forScheme_ok {K : Type} {numDestroy numRepair : Nat} {given? : Option Coupling}
    {c : { c : Coupling // c.Usable }}
    (h : (forScheme numDestroy numRepair given? : Except (Fault K) _) = .ok c) :
    c.val.numDestroy = numDestroy ∧ c.val.numRepair = numRepair := by
  unfold forScheme at h
  obtain ⟨-, h⟩ := Checks.guard_ok_iff.1 h
  simp only at h
  obtain ⟨⟨⟩, hshape, h⟩ := Checks.bind_ok_iff.1 h
  rw [Coupling.require_ok h]
  unfold validateShape at hshape
  split at hshape
  · assumption
  · exact absurd hshape (by simp)

/-- It is the coupling that was given, and without one every pair is legal. -/
theorem Coupling.forScheme_eq {K : Type} {numDestroy numRepair : Nat} {given? : Option Coupling}
    {c : { c : Coupling // c.Usable }}
    (h : (forScheme numDestroy numRepair given? : Except (Fault K) _) = .ok c) :
    c.val = given?.getD (all numDestroy numRepair) := by
  unfold forScheme at h
  obtain ⟨-, h⟩ := Checks.guard_ok_iff.1 h
  obtain ⟨⟨⟩, -, h⟩ := Checks.bind_ok_iff.1 h
  exact Coupling.require_ok h

variable {K : Type} [Field K] [LinearOrder K]

/-! ## 2. The wheel -/

namespace Roulette

variable {s : Roulette K}

/-- A wheel that can draw: there are destroy operators, every operator has a weight, and no weight
can leave the positive numbers. -/
structure Turning (s : Roulette K) : Prop where
  destroy_pos : 0 < s.coupling.numDestroy
  floor_pos : 0 < s.floor
  length_destroy : s.destroyWeights.length = s.coupling.numDestroy
  length_repair : s.repairWeights.length = s.coupling.numRepair
  destroy_weights_pos : ∀ x ∈ s.destroyWeights, 0 < x
  repair_weights_pos : ∀ x ∈ s.repairWeights, 0 < x

theorem mix_pos (h : 0 < s.floor) (score weight : K) : 0 < s.mix score weight := by
  unfold mix
  rw [Scalar.upper_eq_max]
  exact lt_max_of_lt_right h

omit [Field K] [LinearOrder K] in
theorem mem_partnerWeights {d : Nat} {e : K × Nat} :
    e ∈ s.partnerWeights d ↔ s.repairWeights[e.2]? = some e.1 ∧ s.coupling.allows d e.2 = true := by
  rw [partnerWeights, List.mem_filter, List.mem_zipIdx_iff_getElem?]

omit [Field K] [LinearOrder K] in
/-- There are weights of partners where there are partners. -/
theorem partners_eq_nil (hlen : s.repairWeights.length = s.coupling.numRepair) {d : Nat}
    (h : s.partnerWeights d = []) : s.coupling.partners d = [] := by
  refine List.eq_nil_iff_forall_not_mem.2 ?_
  intro r hr
  have hallow := Coupling.mem_partners.1 hr
  have hlt : r < s.repairWeights.length := by
    rw [hlen]
    exact (Coupling.lt_of_allows hallow).2
  have hmem : (s.repairWeights[r], r) ∈ s.partnerWeights d :=
    mem_partnerWeights.2 ⟨List.getElem?_eq_getElem hlt, hallow⟩
  rw [h] at hmem
  exact absurd hmem (by simp)

theorem Turning.update (h : s.Turning) {p : Pair} {o : Outcome} {t : Roulette K}
    (hu : s.update p o = .ok t) : t.Turning ∧ t.coupling = s.coupling := by
  unfold Roulette.update at hu
  obtain ⟨⟨d, r⟩, -, hu⟩ := Checks.bind_ok_iff.1 hu
  cases Checks.pure_ok_iff.1 hu
  refine ⟨⟨h.destroy_pos, h.floor_pos, ?_, ?_, ?_, ?_⟩, rfl⟩
  · rw [List.length_modify]
    exact h.length_destroy
  · rw [List.length_modify]
    exact h.length_repair
  · exact forall_mem_modify h.destroy_weights_pos (mix_pos h.floor_pos _) d
  · exact forall_mem_modify h.repair_weights_pos (mix_pos h.floor_pos _) r

/-- An edited wheel turns on; whether its coupling stayed usable is another matter. -/
theorem Turning.setMark (h : s.Turning) {d r : Nat} {coupled : Bool} {t : Roulette K}
    (ht : s.setMark d r coupled = .ok t) : t.Turning := by
  unfold Roulette.setMark at ht
  obtain ⟨c, hc, ht⟩ := Checks.bind_ok_iff.1 ht
  cases Checks.pure_ok_iff.1 ht
  obtain ⟨hd, hr⟩ := Coupling.shape_set hc
  refine ⟨?_, h.floor_pos, ?_, ?_, h.destroy_weights_pos, h.repair_weights_pos⟩
  · show 0 < c.numDestroy
    rw [hd]
    exact h.destroy_pos
  · show s.destroyWeights.length = c.numDestroy
    rw [hd]
    exact h.length_destroy
  · show s.repairWeights.length = c.numRepair
    rw [hr]
    exact h.length_repair

variable [IsStrictOrderedRing K]

/-- A new wheel turns. -/
theorem turning_of_make {scores : List K} {decay floor : K} {numDestroy numRepair : Nat}
    {coupling? : Option Coupling}
    (h : make scores decay numDestroy numRepair coupling? floor = .ok s) :
    s.Turning ∧ s.coupling.Usable ∧ s.coupling.numDestroy = numDestroy ∧
      s.coupling.numRepair = numRepair := by
  unfold make at h
  obtain ⟨⟨c, usable⟩, hc, h⟩ := Checks.bind_ok_iff.1 h
  obtain ⟨scores', -, h⟩ := Checks.bind_ok_iff.1 h
  obtain ⟨-, h⟩ := Checks.guard_ok_iff.1 h
  obtain ⟨hfloor, h⟩ := Checks.guard_ok_iff.1 h
  cases Checks.pure_ok_iff.1 h
  obtain ⟨hd, hr⟩ := Coupling.forScheme_ok hc
  rw [Bool.not_eq_true, Bool.not_eq_false', decide_eq_true_iff] at hfloor
  refine ⟨⟨usable.destroy_pos, hfloor, ?_, ?_, ?_, ?_⟩, usable, hd, hr⟩
  · simpa using hd.symm
  · simpa using hr.symm
  · intro x hx
    rw [List.eq_of_mem_replicate hx]
    exact zero_lt_one
  · intro x hx
    rw [List.eq_of_mem_replicate hx]
    exact zero_lt_one

/-- **A draw of a turning wheel** is a legal pair, or it stops at a destroy operator that has no
partner. -/
theorem draw_cases (h : s.Turning) (g : Generator) :
    (∃ dr g', s.draw g = (.ok dr, g') ∧ s.coupling.allows dr.1 dr.2 = true) ∨
      ∃ d g', s.draw g = (.error (.strandedDestroy d), g') ∧ d < s.coupling.numDestroy ∧
        s.coupling.partners d = [] := by
  have hne : s.destroyWeights.zipIdx ≠ [] := by
    rw [← List.length_pos_iff, List.length_zipIdx, h.length_destroy]
    exact h.destroy_pos
  have hpos : ∀ e ∈ s.destroyWeights.zipIdx, 0 < e.1 := fun e he =>
    h.destroy_weights_pos _ (List.mem_of_getElem? (List.mem_zipIdx_iff_getElem?.1 he))
  obtain ⟨d, hd, hdraw⟩ := Sampling.weighted_ok hne hpos g
  obtain ⟨e, he, rfl⟩ := List.mem_map.1 hd
  have hlt : e.2 < s.coupling.numDestroy := by
    rw [← h.length_destroy]
    exact (List.getElem?_eq_some_iff.1 (List.mem_zipIdx_iff_getElem?.1 he)).1
  unfold draw
  rw [Sampling.bind_apply, hdraw]
  simp only
  cases hp : s.partnerWeights e.2 with
  | nil => exact Or.inr ⟨e.2, _, rfl, hlt, partners_eq_nil h.length_repair hp⟩
  | cons first rest =>
    have hpos' : ∀ e' ∈ first :: rest, 0 < e'.1 := by
      intro e' he'
      rw [← hp] at he'
      exact h.repair_weights_pos _ (List.mem_of_getElem? (mem_partnerWeights.1 he').1)
    obtain ⟨r, hr, hdraw'⟩ := Sampling.weighted_ok (by simp) hpos'
      (Draw.uniform g : K × Generator).2
    obtain ⟨e', he', rfl⟩ := List.mem_map.1 hr
    rw [← hp] at he'
    refine Or.inl ⟨(e.2, e'.2),
      (Draw.uniform (Draw.uniform g : K × Generator).2 : K × Generator).2, ?_,
      (mem_partnerWeights.1 he').2⟩
    simp only
    rw [Sampling.bind_apply, hdraw']
    rfl

end Roulette

/-! ## 3. The segmented wheel -/

namespace Segmented

variable {s : Segmented K}

/-- A segmented wheel that can draw: its wheel turns, and there is a sum for every weight. -/
structure Turning (s : Segmented K) : Prop where
  wheel : s.wheel.Turning
  length_destroy : s.destroySums.length = s.wheel.destroyWeights.length
  length_repair : s.repairSums.length = s.wheel.repairWeights.length

theorem Turning.closeSegment (h : s.Turning) : s.closeSegment.Turning := by
  have hd : (List.zipWith s.wheel.mix s.destroySums s.wheel.destroyWeights).length
      = s.wheel.destroyWeights.length := by
    rw [List.length_zipWith, h.length_destroy, Nat.min_self]
  have hr : (List.zipWith s.wheel.mix s.repairSums s.wheel.repairWeights).length
      = s.wheel.repairWeights.length := by
    rw [List.length_zipWith, h.length_repair, Nat.min_self]
  have hmix := Roulette.mix_pos h.wheel.floor_pos
  exact {
    wheel := {
      destroy_pos := h.wheel.destroy_pos
      floor_pos := h.wheel.floor_pos
      length_destroy := hd.trans h.wheel.length_destroy
      length_repair := hr.trans h.wheel.length_repair
      destroy_weights_pos := forall_mem_zipWith hmix _ _
      repair_weights_pos := forall_mem_zipWith hmix _ _ }
    length_destroy := by
      show (s.wheel.destroyWeights.map fun _ => (0 : K)).length = _
      rw [List.length_map]
      exact hd.symm
    length_repair := by
      show (s.wheel.repairWeights.map fun _ => (0 : K)).length = _
      rw [List.length_map]
      exact hr.symm }

theorem Turning.advance (h : s.Turning) :
    s.advance.Turning ∧ s.advance.wheel.coupling = s.wheel.coupling := by
  have hcount : Turning { s with iteration := s.iteration + 1 } :=
    ⟨h.wheel, h.length_destroy, h.length_repair⟩
  unfold Segmented.advance
  simp only
  split
  · exact ⟨hcount.closeSegment, rfl⟩
  · exact ⟨hcount, rfl⟩

theorem Turning.update (h : s.Turning) {p : Pair} {o : Outcome} {t : Segmented K}
    (hu : s.update p o = .ok t) : t.Turning ∧ t.wheel.coupling = s.wheel.coupling := by
  unfold Segmented.update at hu
  obtain ⟨⟨d, r⟩, -, hu⟩ := Checks.bind_ok_iff.1 hu
  cases Checks.pure_ok_iff.1 hu
  refine ⟨⟨h.wheel, ?_, ?_⟩, rfl⟩
  · rw [List.length_modify]
    exact h.length_destroy
  · rw [List.length_modify]
    exact h.length_repair

theorem Turning.setMark (h : s.Turning) {d r : Nat} {coupled : Bool} {t : Segmented K}
    (ht : s.setMark d r coupled = .ok t) : t.Turning := by
  unfold Segmented.setMark at ht
  obtain ⟨wheel, hw, ht⟩ := Checks.bind_ok_iff.1 ht
  cases Checks.pure_ok_iff.1 ht
  have hweights : wheel.destroyWeights = s.wheel.destroyWeights ∧
      wheel.repairWeights = s.wheel.repairWeights := by
    unfold Roulette.setMark at hw
    obtain ⟨c, -, hw⟩ := Checks.bind_ok_iff.1 hw
    cases Checks.pure_ok_iff.1 hw
    exact ⟨rfl, rfl⟩
  refine ⟨h.wheel.setMark hw, ?_, ?_⟩
  · show s.destroySums.length = wheel.destroyWeights.length
    rw [hweights.1]
    exact h.length_destroy
  · show s.repairSums.length = wheel.repairWeights.length
    rw [hweights.2]
    exact h.length_repair

/-- A selection of a segmented wheel draws by the weights after `advance`. -/
theorem select_spec (w : Setting K (Segmented K)) :
    ∃ lines, result select w =
      ((w.own.advance.wheel.draw w.rng : Except (Fault K) (Nat × Nat) × Generator).1,
        ⟨w.own.advance,
          (w.own.advance.wheel.draw w.rng : Except (Fault K) (Nat × Nat) × Generator).2,
          lines⟩) := by
  unfold select
  rw [result_bind, result_own]
  simp only
  rw [result_bind, result_sayIf]
  exact ⟨_, rfl⟩

variable [IsStrictOrderedRing K]

theorem turning_of_make {scores : List K} {decay floor : K} {length : Int}
    {numDestroy numRepair : Nat} {coupling? : Option Coupling} {verbose : Bool}
    (h : make scores decay length numDestroy numRepair coupling? floor verbose = .ok s) :
    s.Turning ∧ s.wheel.coupling.Usable := by
  unfold make at h
  obtain ⟨wheel, hw, h⟩ := Checks.bind_ok_iff.1 h
  obtain ⟨-, h⟩ := Checks.guard_ok_iff.1 h
  cases Checks.pure_ok_iff.1 h
  obtain ⟨hturning, husable, hd, hr⟩ := Roulette.turning_of_make hw
  refine ⟨⟨hturning, ?_, ?_⟩, husable⟩
  · rw [List.length_replicate, hturning.length_destroy, hd]
  · rw [List.length_replicate, hturning.length_repair, hr]

end Segmented

end LargeNeighbourhood
