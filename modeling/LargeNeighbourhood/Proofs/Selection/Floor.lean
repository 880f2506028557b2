/-
# The floor under the weights

What a wheel mixes into a weight does not bring it below the floor: the mixture is cut off there.
So in one selection or report every weight stays what it was or comes to lie at the floor or above
(`Roulette.Rises`).  All weights begin at one, though, whatever the floor is.  A weight below the
floor is therefore one that still has its first value (`Scheme.Reachable.floored`).

For a floor of at most one that leaves no weight below it, at any time.  With a higher floor all
weights of a new wheel are below it, and each stays there until something is mixed into it: the
first report about its operator, or the end of a segment (`weights_above_floor_iff`).
-/
import Mathlib
import LargeNeighbourhood.Proofs.Acceptance.NewBest
import LargeNeighbourhood.Proofs.Selection.Legality

namespace LargeNeighbourhood

open Act

/-! ## 1. One wheel -/

namespace Roulette

section Weights

variable {K : Type} {s t : Roulette K}

/-- The weights of all operators. -/
def weights (s : Roulette K) : List K := s.destroyWeights ++ s.repairWeights

variable [LE K]

/-- No weight is below the floor. -/
def AboveFloor (s : Roulette K) : Prop := ∀ x ∈ s.weights, s.floor ≤ x

/-- A weight that is not at the floor or above still has its first value. -/
def Floored [One K] (s : Roulette K) : Prop := ∀ x ∈ s.weights, x = 1 ∨ s.floor ≤ x

/-- Of two lists of weights: each weight is what it was, or lies at the floor or above. -/
def Lifts (floor : K) (xs ys : List K) : Prop :=
  ∀ (i : Nat) (x : K), ys[i]? = some x → xs[i]? = some x ∨ floor ≤ x

/-- The second of two states of a wheel has the weights of the first, or some that lie at the floor
or above. -/
structure Rises (s t : Roulette K) : Prop where
  floor_eq : t.floor = s.floor
  destroy : Lifts s.floor s.destroyWeights t.destroyWeights
  repair : Lifts s.floor s.repairWeights t.repairWeights

theorem Rises.refl (s : Roulette K) : s.Rises s := ⟨rfl, fun _ _ => .inl, fun _ _ => .inl⟩

theorem Rises.of_aboveFloor (hfloor : t.floor = s.floor) (h : t.AboveFloor) : s.Rises t := by
  have hmem : ∀ x ∈ t.weights, s.floor ≤ x := by
    rw [← hfloor]
    exact h
  refine ⟨hfloor, fun i x hx => .inr (hmem x ?_), fun i x hx => .inr (hmem x ?_)⟩
  · exact List.mem_append_left _ (List.mem_of_getElem? hx)
  · exact List.mem_append_right _ (List.mem_of_getElem? hx)

/-- A weight of a wheel that rose was there before, or is not below the floor. -/
theorem Rises.floored [One K] (h : s.Rises t) (hs : s.Floored) : t.Floored := by
  have hweight : ∀ x, x ∈ s.weights ∨ s.floor ≤ x → x = 1 ∨ s.floor ≤ x := fun x hx =>
    hx.elim (hs x) .inr
  intro x hx
  rw [h.floor_eq]
  refine hweight x ?_
  rcases List.mem_append.1 hx with hx | hx
  · obtain ⟨i, hi⟩ := List.mem_iff_getElem?.1 hx
    exact (h.destroy i x hi).imp_left fun hd => List.mem_append_left _ (List.mem_of_getElem? hd)
  · obtain ⟨i, hi⟩ := List.mem_iff_getElem?.1 hx
    exact (h.repair i x hi).imp_left fun hr => List.mem_append_right _ (List.mem_of_getElem? hr)

end Weights

variable {K : Type} [Field K] [LinearOrder K] {s t : Roulette K}

/-- Where all that is below the floor has its first value, nothing is unless the floor is above one
and some weight is one. -/
theorem Floored.aboveFloor_iff (h : s.Floored) :
    s.AboveFloor ↔ s.floor ≤ 1 ∨ 1 ∉ s.weights := by
  constructor
  · intro habove
    by_contra hnot
    rw [not_or, not_not] at hnot
    exact hnot.1 (habove 1 hnot.2)
  · intro hcase x hx
    rcases h x hx with rfl | hfloor
    · exact hcase.resolve_right fun hnone => hnone hx
    · exact hfloor

theorem floor_le_mix (s : Roulette K) (score weight : K) : s.floor ≤ s.mix score weight := by
  unfold mix
  rw [Scalar.upper_eq_max]
  exact le_max_right _ _

/-- A new wheel has a weight for each operator, and each is one. -/
theorem weights_of_make {scores : List K} {decay floor : K} {numDestroy numRepair : Nat}
    {coupling? : Option Coupling}
    (h : make scores decay numDestroy numRepair coupling? floor = .ok s) :
    s.floor = floor ∧ 1 ∈ s.weights ∧ ∀ x ∈ s.weights, x = 1 := by
  unfold make at h
  obtain ⟨⟨c, usable⟩, hc, h⟩ := Checks.bind_ok_iff.1 h
  obtain ⟨scores', -, h⟩ := Checks.bind_ok_iff.1 h
  obtain ⟨-, h⟩ := Checks.guard_ok_iff.1 h
  obtain ⟨-, h⟩ := Checks.guard_ok_iff.1 h
  cases Checks.pure_ok_iff.1 h
  have hd : numDestroy ≠ 0 := by
    rw [← (Coupling.forScheme_ok hc).1]
    exact usable.destroy_pos.ne'
  refine ⟨rfl, List.mem_append_left _ (List.mem_replicate.2 ⟨hd, rfl⟩), ?_⟩
  intro x hx
  rcases List.mem_append.1 hx with hx | hx
  · exact List.eq_of_mem_replicate hx
  · exact List.eq_of_mem_replicate hx

theorem floored_of_make {scores : List K} {decay floor : K} {numDestroy numRepair : Nat}
    {coupling? : Option Coupling}
    (h : make scores decay numDestroy numRepair coupling? floor = .ok s) : s.Floored :=
  fun x hx => .inl ((weights_of_make h).2.2 x hx)

/-- A new wheel is above its floor if that is at most one. -/
theorem aboveFloor_iff_of_make {scores : List K} {decay floor : K} {numDestroy numRepair : Nat}
    {coupling? : Option Coupling}
    (h : make scores decay numDestroy numRepair coupling? floor = .ok s) :
    s.AboveFloor ↔ floor ≤ 1 := by
  obtain ⟨rfl, hone, -⟩ := weights_of_make h
  rw [(floored_of_make h).aboveFloor_iff]
  exact or_iff_left fun hnone => hnone hone

/-- A mixture changes one weight. -/
theorem lifts_modify_mix (s : Roulette K) (weights : List K) (score : K) (d : Nat) :
    Lifts s.floor weights (weights.modify d (s.mix score)) := by
  intro i x h
  rw [List.getElem?_modify] at h
  obtain ⟨y, hy, rfl⟩ := Option.map_eq_some_iff.1 h
  split
  · exact .inr (s.floor_le_mix _ _)
  · exact .inl hy

theorem exists_floor_le_modify (s : Roulette K) {weights : List K} {d : Nat}
    (hd : d < weights.length) (score : K) :
    ∃ x, (weights.modify d (s.mix score))[d]? = some x ∧ s.floor ≤ x := by
  refine ⟨s.mix score weights[d], ?_, s.floor_le_mix _ _⟩
  rw [List.getElem?_modify_eq, List.getElem?_eq_getElem hd]
  rfl

theorem update_ok {p : Pair} {o : Outcome} (h : s.update p o = .ok t) :
    ∃ d r, p = Pair.ofNat (d, r) ∧ s.coupling.allows d r = true ∧
      t = { s with
        destroyWeights := s.destroyWeights.modify d (s.mix (s.scores.of o))
        repairWeights := s.repairWeights.modify r (s.mix (s.scores.of o)) } := by
  unfold update at h
  obtain ⟨⟨d, r⟩, hlegal, h⟩ := Checks.bind_ok_iff.1 h
  obtain ⟨hpair, hallow⟩ := Coupling.requireLegal_eq_ok hlegal
  exact ⟨d, r, hpair, hallow, (Checks.pure_ok_iff.1 h).symm⟩

theorem rises_update {p : Pair} {o : Outcome} (h : s.update p o = .ok t) : s.Rises t := by
  obtain ⟨d, r, -, -, rfl⟩ := update_ok h
  exact ⟨rfl, lifts_modify_mix _ _ _ _, lifts_modify_mix _ _ _ _⟩

/-- A report lifts the weights of its two operators to the floor, if they are not above it. -/
theorem Turning.lifted (hs : s.Turning) {p : Pair} {o : Outcome} (h : s.update p o = .ok t) :
    ∃ d r x y, p = Pair.ofNat (d, r) ∧ t.destroyWeights[d]? = some x ∧ s.floor ≤ x ∧
      t.repairWeights[r]? = some y ∧ s.floor ≤ y := by
  obtain ⟨d, r, hpair, hallow, rfl⟩ := update_ok h
  obtain ⟨hd, hr⟩ := Coupling.lt_of_allows hallow
  obtain ⟨x, hx, hfloorx⟩ := s.exists_floor_le_modify (hs.length_destroy ▸ hd) (s.scores.of o)
  obtain ⟨y, hy, hfloory⟩ := s.exists_floor_le_modify (hs.length_repair ▸ hr) (s.scores.of o)
  exact ⟨d, r, x, y, hpair, hx, hfloorx, hy, hfloory⟩

end Roulette

/-! ## 2. The segmented wheel -/

namespace Segmented

variable {K : Type} [Field K] [LinearOrder K]

/-- The end of a segment lifts all weights to the floor. -/
theorem aboveFloor_closeSegment (s : Segmented K) : s.closeSegment.wheel.AboveFloor := by
  intro x hx
  rcases List.mem_append.1 hx with hx | hx
  · exact forall_mem_zipWith s.wheel.floor_le_mix _ _ x hx
  · exact forall_mem_zipWith s.wheel.floor_le_mix _ _ x hx

theorem rises_advance (s : Segmented K) : s.wheel.Rises s.advance.wheel := by
  unfold advance
  simp only
  split
  · exact .of_aboveFloor rfl (aboveFloor_closeSegment _)
  · exact .refl _

/-- Reports of a segment wait for its end. -/
theorem wheel_update {s t : Segmented K} {p : Pair} {o : Outcome} (h : s.update p o = .ok t) :
    t.wheel = s.wheel := by
  unfold update at h
  obtain ⟨⟨d, r⟩, -, h⟩ := Checks.bind_ok_iff.1 h
  cases Checks.pure_ok_iff.1 h
  rfl

theorem make_wheel {scores : List K} {decay floor : K} {length : Int} {numDestroy numRepair : Nat}
    {coupling? : Option Coupling} {verbose : Bool} {s : Segmented K}
    (h : make scores decay length numDestroy numRepair coupling? floor verbose = .ok s) :
    Roulette.make scores decay numDestroy numRepair coupling? floor = .ok s.wheel := by
  unfold make at h
  obtain ⟨wheel, hw, h⟩ := Checks.bind_ok_iff.1 h
  obtain ⟨-, h⟩ := Checks.guard_ok_iff.1 h
  cases Checks.pure_ok_iff.1 h
  exact hw

end Segmented

/-! ## 3. Reachable wheels -/

namespace Scheme

variable {K X : Type} [Field K] [LinearOrder K] [Elementary K] [Solution K X]

/-- The wheel of a scheme that has one. -/
def wheel? {π : Type} : Scheme K π → Option (Roulette K)
  | roulette s => some s
  | segmented s => some s.wheel
  | _ => none

/-- Where a scheme has a wheel afterwards, it had one before, and that rose to it. -/
def Rises (s t : Scheme K (EpsilonGreedy K)) : Prop :=
  ∀ wheel', t.wheel? = some wheel' → ∃ wheel, s.wheel? = some wheel ∧ wheel.Rises wheel'

omit [Elementary K] in
theorem Rises.refl (s : Scheme K (EpsilonGreedy K)) : s.Rises s := fun wheel h =>
  ⟨wheel, h, .refl wheel⟩

theorem rises_select (current : X) (w : Setting K (Scheme K (EpsilonGreedy K))) :
    w.own.Rises (result (select EpsilonGreedy.policy current) w).2.own := by
  obtain ⟨own, rng, lines⟩ := w
  unfold select
  rw [result_bind, result_own]
  simp only
  cases own with
  | uniform s => exact .refl _
  | roulette s =>
    simp only [result_map, result_sample]
    exact .refl _
  | segmented s =>
    obtain ⟨said, hselect⟩ := Segmented.select_spec (⟨s, rng, lines⟩ : Setting K (Segmented K))
    simp only [result_map, result_on, hselect]
    rintro _ ⟨⟩
    exact ⟨_, rfl, s.rises_advance⟩
  | confidenceBound s => exact .refl _
  | bandit s =>
    simp only [result_map, result_on]
    rintro _ ⟨⟩

omit [Elementary K] in
theorem rises_update (y : X) (pair : Pair) (o : Outcome)
    (w : Setting K (Scheme K (EpsilonGreedy K))) :
    w.own.Rises (result (update EpsilonGreedy.policy y pair o) w).2.own := by
  obtain ⟨own, rng, lines⟩ := w
  unfold update
  rw [result_bind, result_own]
  simp only
  cases own with
  | uniform s =>
    simp only [result_bind, result_ofExcept]
    cases (s.update pair : Except (Fault K) UniformChoice) with
    | error f => exact .refl _
    | ok t => rintro _ ⟨⟩
  | roulette s =>
    simp only [result_bind, result_ofExcept]
    cases hs : s.update pair o with
    | error f => exact .refl _
    | ok t =>
      rintro _ ⟨⟩
      exact ⟨s, rfl, Roulette.rises_update hs⟩
  | segmented s =>
    simp only [result_bind, result_ofExcept]
    cases hs : s.update pair o with
    | error f => exact .refl _
    | ok t =>
      rintro _ ⟨⟩
      exact ⟨s.wheel, rfl, by rw [Segmented.wheel_update hs]; exact .refl _⟩
  | confidenceBound s =>
    simp only [result_bind, result_ofExcept]
    cases s.update pair o with
    | error f => exact .refl _
    | ok t => rintro _ ⟨⟩
  | bandit s =>
    rw [result_on]
    rintro _ ⟨⟩

/-- **In a reachable wheel a weight below the floor still has its first value.** -/
theorem Reachable.floored {s : Scheme K (EpsilonGreedy K)} (h : Reachable X s) :
    ∀ wheel, s.wheel? = some wheel → wheel.Floored := by
  induction h with
  | roulette made =>
    rintro _ ⟨⟩
    exact Roulette.floored_of_make made
  | segmented made =>
    rintro _ ⟨⟩
    exact Roulette.floored_of_make (Segmented.make_wheel made)
  | select current h ih =>
    intro wheel' hwheel'
    obtain ⟨wheel, hwheel, hrises⟩ := rises_select current _ wheel' hwheel'
    exact hrises.floored (ih wheel hwheel)
  | update y pair o h ih =>
    intro wheel' hwheel'
    obtain ⟨wheel, hwheel, hrises⟩ := rises_update y pair o _ wheel' hwheel'
    exact hrises.floored (ih wheel hwheel)
  | _ => rintro _ ⟨⟩

end Scheme

/-- **Where the weights of a wheel are above its floor.**  In every state that selections and
reports lead to, that is where the floor is at most one, or no weight is one any more.  In
particular the weights of a new wheel are above a floor of at most one, and stay there, and are
below any higher floor.

No selection or report, a refused one included, brings a weight below the floor.  A report lifts
the weights of its two operators to it, and the end of a segment lifts them all. -/
theorem weights_above_floor_iff {K X : Type} [Field K] [LinearOrder K] [IsStrictOrderedRing K]
    [Elementary K] [Solution K X] :
    (∀ {s : Scheme K (EpsilonGreedy K)} {wheel : Roulette K}, Scheme.Reachable X s →
      s.wheel? = some wheel →
      (wheel.AboveFloor ↔ wheel.floor ≤ 1 ∨ 1 ∉ wheel.weights)) ∧
    (∀ {scores decay numDestroy numRepair coupling? floor} {s : Roulette K},
      Roulette.make scores decay numDestroy numRepair coupling? floor = .ok s →
      (s.AboveFloor ↔ floor ≤ 1)) ∧
    (∀ {scores decay length numDestroy numRepair coupling? floor verbose} {s : Segmented K},
      Segmented.make scores decay length numDestroy numRepair coupling? floor verbose = .ok s →
      (s.wheel.AboveFloor ↔ floor ≤ 1)) ∧
    (∀ (x : X) (pair : Pair) (o : Outcome) (w : Setting K (Scheme K (EpsilonGreedy K))),
      w.own.Rises (result (Scheme.select EpsilonGreedy.policy x) w).2.own ∧
      w.own.Rises (result (Scheme.update EpsilonGreedy.policy x pair o) w).2.own) ∧
    (∀ {s t : Roulette K} {p : Pair} {o : Outcome}, Scheme.Reachable X (.roulette s) →
      s.update p o = .ok t →
      ∃ d r x y, p = Pair.ofNat (d, r) ∧ t.destroyWeights[d]? = some x ∧ s.floor ≤ x ∧
        t.repairWeights[r]? = some y ∧ s.floor ≤ y) ∧
    ∀ s : Segmented K, s.closeSegment.wheel.AboveFloor :=
  ⟨fun hreach hwheel => (hreach.floored _ hwheel).aboveFloor_iff,
    fun made => Roulette.aboveFloor_iff_of_make made,
    fun made => Roulette.aboveFloor_iff_of_make (Segmented.make_wheel made),
    fun x pair o w => ⟨Scheme.rises_select x w, Scheme.rises_update x pair o w⟩,
    fun hreach hupdate => hreach.turning.1.lifted hupdate,
    Segmented.aboveFloor_closeSegment⟩

namespace Countdown

section Single

variable {K : Type} [Field K] [LinearOrder K]

/-- A new wheel for the only pair, with a floor. -/
def wheelAbove (floor : K) : Roulette K where
  scores := ⟨3, 2, 1, 0, []⟩
  decay := 1
  floor := floor
  coupling := Coupling.all 1 1
  destroyWeights := [1]
  repairWeights := [1]

theorem make_wheelAbove [IsStrictOrderedRing K] {floor : K} (h : 0 < floor) :
    Roulette.make [3, 2, 1, 0] 1 1 1 none floor = .ok (wheelAbove floor) := by
  have hscores : Scores.ofList ([3, 2, 1, 0] : List K) = .ok ⟨3, 2, 1, 0, []⟩ := by
    norm_num [Scores.ofList]
  have hcoupling : ∃ u, (Coupling.forScheme 1 1 none : Except (Fault K) _)
      = .ok ⟨Coupling.all 1 1, u⟩ := ⟨_, rfl⟩
  obtain ⟨u, hu⟩ := hcoupling
  rw [Roulette.make, hu]
  simp only [Checks.bind_ok_iff, Checks.guard_ok_iff, Checks.pure_ok_iff]
  refine ⟨_, rfl, _, hscores, by simp [Scalar.within], by simpa using h, rfl⟩

end Single

/-- The wheel with a floor of two, after a report about the only pair. -/
noncomputable def liftedWheel : Roulette ℝ :=
  { wheelAbove 2 with destroyWeights := [2], repairWeights := [2] }

theorem update_wheelAbove :
    (wheelAbove (2 : ℝ)).update (Pair.ofNat (0, 0)) .best = .ok liftedWheel := by
  have hmix : (wheelAbove (2 : ℝ)).mix ((wheelAbove (2 : ℝ)).scores.of .best) 1 = 2 := by
    norm_num [Roulette.mix, Scalar.upper_eq_max, wheelAbove]
  rw [Roulette.update, Coupling.requireLegal_ofNat (c := (wheelAbove (2 : ℝ)).coupling) rfl]
  refine congrArg Except.ok ?_
  simpa [wheelAbove, liftedWheel] using hmix

theorem reachable_liftedWheel : Scheme.Reachable (Level ℝ) (.roulette liftedWheel) := by
  have hreported : (result (Scheme.update EpsilonGreedy.policy (⟨0⟩ : Level ℝ)
      (Pair.ofNat (0, 0)) .best) ⟨.roulette (wheelAbove 2), ⟨0, 1⟩, #[]⟩).2.own
        = .roulette liftedWheel := by
    rw [Scheme.update, result_bind, result_own]
    simp only [result_bind, update_wheelAbove, result_ofExcept]
    rfl
  rw [← hreported]
  exact .update _ _ _ (.roulette (make_wheelAbove two_pos))

end Countdown

open Countdown in
/-- The new wheel is below its floor of two, and a report about the only pair lifts it there. -/
theorem weights_above_floor_lifted :
    ¬(wheelAbove (2 : ℝ)).AboveFloor ∧ liftedWheel.AboveFloor := by
  obtain ⟨hreach, hmade, -⟩ := weights_above_floor_iff (K := ℝ) (X := Level ℝ)
  constructor
  · rw [hmade (make_wheelAbove two_pos)]
    norm_num
  · refine (hreach reachable_liftedWheel rfl).2 (.inr ?_)
    norm_num [Roulette.weights, liftedWheel]

/-- A wheel whose floor is two begins with its weights below it. -/
theorem new_wheel_below_floor :
    ∃ s : Roulette ℚ, Roulette.make [3, 2, 1, 0] 1 1 1 none 2 = .ok s ∧
      s.floor = 2 ∧ s.destroyWeights = [1] ∧ s.repairWeights = [1] ∧ ¬s.AboveFloor := by
  refine ⟨Countdown.wheelAbove 2, Countdown.make_wheelAbove two_pos, rfl, rfl, rfl, ?_⟩
  intro habove
  have hle : (2 : ℚ) ≤ 1 := habove 1 (by simp [Roulette.weights, Countdown.wheelAbove])
  norm_num at hle

end LargeNeighbourhood
