/-
# What the learning schemes count

The confidence bound and the bandit count the reports about each pair, each in its own way: the
one in the cell of the pair, the other one with the arm of its policy.  A report
about a legal pair counts for this pair and for no other, and a selection counts nothing.  So a
new scheme that was told of some pairs has for every legal pair the number of times it is among
them (`Tells`), and over the partners of one operator these numbers add up to the reports about it.

`Learns` is what a run needs of this: it does not ask which scheme it is.
-/
import Mathlib
import LargeNeighbourhood.Proofs.Selection.Legality

namespace LargeNeighbourhood

open Act

/-! ## 1. Sums over legal pairs -/

/-- Among some keys an entry is found as often as it is there. -/
theorem sum_indicator {α : Type} [BEq α] [LawfulBEq α] (keys : List α) (x : α) :
    (keys.map fun k => if x == k then 1 else 0).sum = keys.count x := by
  induction keys with
  | nil => rfl
  | cons k keys ih => rw [List.map_cons, List.sum_cons, ih, List.count_cons, Nat.add_comm,
      BEq.comm]

/-- The counts of distinct keys add up to the number of entries among the keys. -/
theorem sum_count_eq_countP {α : Type} [BEq α] [LawfulBEq α] {keys : List α} (h : keys.Nodup)
    (entries : List α) :
    (keys.map fun k => entries.count k).sum = entries.countP fun x => keys.contains x := by
  induction entries with
  | nil => simp
  | cons x entries ih =>
    have hone : keys.count x = if keys.contains x = true then 1 else 0 := by
      rw [List.Nodup.count h]
      simp
    simp only [List.count_cons, List.sum_map_add, List.countP_cons, ih, sum_indicator, hone]

namespace Coupling

variable {c : Coupling} {pairs : List (Nat × Nat)}

/-- The destroy operators that a repair operator may follow, ascending. -/
def predecessors (c : Coupling) (r : Nat) : List Nat :=
  (List.range c.numDestroy).filter fun d => c.allows d r

theorem mem_predecessors {d r : Nat} : d ∈ c.predecessors r ↔ c.allows d r = true := by
  simp only [predecessors, List.mem_filter, List.mem_range, and_iff_right_iff_imp]
  exact fun h => (lt_of_allows h).1

/-- Legal pairs, counted one by one along a row, are those with the row's destroy operator ... -/
theorem sum_partners (h : ∀ dr ∈ pairs, c.allows dr.1 dr.2 = true) (d : Nat) :
    ((c.partners d).map fun r => pairs.count (d, r)).sum = pairs.countP fun dr => dr.1 = d := by
  have hnodup : ((c.partners d).map fun r => (d, r)).Nodup :=
    (List.nodup_range.filter _).map fun r r' heq => (Prod.mk.inj heq).2
  have hsum := sum_count_eq_countP hnodup pairs
  rw [List.map_map] at hsum
  refine Eq.trans hsum (List.countP_congr ?_)
  intro dr hdr
  simp only [decide_eq_true_eq, List.contains_iff_mem, List.mem_map, mem_partners]
  constructor
  · rintro ⟨r, -, rfl⟩
    rfl
  · rintro rfl
    exact ⟨dr.2, h dr hdr, rfl⟩

/-- ... and along a column those with its repair operator. -/
theorem sum_predecessors (h : ∀ dr ∈ pairs, c.allows dr.1 dr.2 = true) (r : Nat) :
    ((c.predecessors r).map fun d => pairs.count (d, r)).sum
      = pairs.countP fun dr => dr.2 = r := by
  have hnodup : ((c.predecessors r).map fun d => (d, r)).Nodup :=
    (List.nodup_range.filter _).map fun d d' heq => (Prod.mk.inj heq).1
  have hsum := sum_count_eq_countP hnodup pairs
  rw [List.map_map] at hsum
  refine Eq.trans hsum (List.countP_congr ?_)
  intro dr hdr
  simp only [decide_eq_true_eq, List.contains_iff_mem, List.mem_map, mem_predecessors]
  constructor
  · rintro ⟨d, -, rfl⟩
    rfl
  · rintro rfl
    exact ⟨dr.1, h dr hdr, rfl⟩

end Coupling

/-! ## 2. Counts of reports -/

/-- The counts are those of some pairs, all of them legal. -/
structure Tells (c : Coupling) (pulls : Nat × Nat → Nat) (pairs : List (Nat × Nat)) : Prop where
  legal : ∀ dr ∈ pairs, c.allows dr.1 dr.2 = true
  count : ∀ dr, c.allows dr.1 dr.2 = true → pulls dr = pairs.count dr

namespace Tells

variable {c : Coupling} {pulls pulls' : Nat × Nat → Nat} {pairs : List (Nat × Nat)}

theorem nil (h : ∀ dr, c.allows dr.1 dr.2 = true → pulls dr = 0) : Tells c pulls [] where
  legal := fun _ hdr => absurd hdr List.not_mem_nil
  count := h

/-- One more report about a legal pair. -/
theorem snoc (h : Tells c pulls pairs) {dr : Nat × Nat} (hdr : c.allows dr.1 dr.2 = true)
    (hpulls : ∀ x, c.allows x.1 x.2 = true → pulls' x = pulls x + if x = dr then 1 else 0) :
    Tells c pulls' (pairs ++ [dr]) where
  legal := by
    intro x hx
    rcases List.mem_append.1 hx with hx | hx
    · exact h.legal x hx
    · rw [List.mem_singleton.1 hx]
      exact hdr
  count := by
    intro x hx
    rw [hpulls x hx, h.count x hx, List.count_append, List.count_singleton]
    simp only [beq_iff_eq, eq_comm (a := x)]

theorem sum_partners (h : Tells c pulls pairs) (d : Nat) :
    ((c.partners d).map fun r => pulls (d, r)).sum = pairs.countP fun dr => dr.1 = d := by
  rw [← Coupling.sum_partners h.legal]
  refine congrArg List.sum (List.map_congr_left fun r hr => ?_)
  exact h.count (d, r) (Coupling.mem_partners.1 hr)

theorem sum_predecessors (h : Tells c pulls pairs) (r : Nat) :
    ((c.predecessors r).map fun d => pulls (d, r)).sum = pairs.countP fun dr => dr.2 = r := by
  rw [← Coupling.sum_predecessors h.legal]
  refine congrArg List.sum (List.map_congr_left fun d hd => ?_)
  exact h.count (d, r) (Coupling.mem_predecessors.1 hd)

end Tells

/-- The indices of a report that is taken are those of its pair. -/
theorem Coupling.requireLegal_ok {K : Type} {c : Coupling} {dr x : Nat × Nat}
    (h : (c.requireLegal (Pair.ofNat dr) : Except (Fault K) (Nat × Nat)) = .ok x) :
    x = dr ∧ c.allows dr.1 dr.2 = true := by
  obtain ⟨hpair, hallow⟩ := requireLegal_eq_ok h
  obtain rfl : dr = x := Pair.ofNat_injective hpair
  exact ⟨rfl, hallow⟩

/-! ## 3. The confidence bound -/

namespace ConfidenceBound

variable {K : Type} [Scalar K] {s t : ConfidenceBound K} {pairs : List (Nat × Nat)}

/-- How often a legal pair was reported. -/
def pulls (s : ConfidenceBound K) (dr : Nat × Nat) : Nat :=
  match s.estimate (Pair.ofNat dr) with
  | .ok e => e.count
  | .error _ => 0

/-- The scheme was told of these pairs since it was made. -/
structure Learned (s : ConfidenceBound K) (pairs : List (Nat × Nat)) : Prop where
  iteration_eq : s.iteration = pairs.length
  tells : Tells s.coupling s.pulls pairs

/-- The pulls of a legal pair are counted in its cell. -/
theorem pulls_eq {dr : Nat × Nat} (h : s.coupling.allows dr.1 dr.2 = true) :
    s.pulls dr = (s.known dr).count := by
  rw [pulls, estimate_ofNat h]

theorem learned_of_make {scores : List K} {alpha : K} {numDestroy numRepair : Nat}
    {coupling? : Option Coupling} (h : make scores alpha numDestroy numRepair coupling? = .ok s) :
    s.Learned [] := by
  refine ⟨?_, .nil fun dr hdr => ?_⟩
  · unfold make at h
    obtain ⟨⟨c, usable⟩, -, h⟩ := Checks.bind_ok_iff.1 h
    obtain ⟨scores', -, h⟩ := Checks.bind_ok_iff.1 h
    obtain ⟨-, h⟩ := Checks.guard_ok_iff.1 h
    cases Checks.pure_ok_iff.1 h
    rfl
  · rw [pulls_eq hdr, known_of_make h]

/-- A score that is taken in counts for its pair only. -/
theorem pulls_absorb {dr x : Nat × Nat} (hdr : s.coupling.allows dr.1 dr.2 = true)
    (hx : s.coupling.allows x.1 x.2 = true) (score : K) :
    (s.absorb dr score).pulls x = s.pulls x + if x = dr then 1 else 0 := by
  rw [pulls_eq hx, pulls_eq (s := s.absorb dr score) hx, known_absorb hdr hx]
  split
  · rename_i h
    rw [h]
    rfl
  · rfl

/-- **A report counts for its pair.** -/
theorem Learned.update (h : s.Learned pairs) {dr : Nat × Nat} {o : Outcome}
    (hu : s.update (Pair.ofNat dr) o = .ok t) :
    t.Learned (pairs ++ [dr]) ∧ t.coupling = s.coupling := by
  obtain ⟨x, hx, ht⟩ := Checks.bind_ok_iff.1 hu
  obtain ⟨rfl, hallow⟩ := Coupling.requireLegal_ok hx
  cases Checks.pure_ok_iff.1 ht
  refine ⟨⟨?_, h.tells.snoc hallow fun y hy => pulls_absorb hallow hy _⟩, rfl⟩
  rw [List.length_append, ← h.iteration_eq]
  rfl

/-- A scheme takes a report about a legal pair ... -/
theorem update_ofNat {dr : Nat × Nat} {o : Outcome} (h : s.coupling.allows dr.1 dr.2 = true) :
    s.update (Pair.ofNat dr) o = .ok (s.absorb dr (s.scores.of o)) := by
  rw [update, Coupling.requireLegal_ofNat h]
  rfl

/-- ... also as one of the library. -/
theorem result_update {X π : Type} [Solution K X] (p : Policy K π) (y : X) (o : Outcome)
    {dr : Nat × Nat} {g : Generator} {lines : Array (Line K)}
    (h : s.coupling.allows dr.1 dr.2 = true) :
    result (Scheme.update p y (Pair.ofNat dr) o) ⟨.confidenceBound s, g, lines⟩
      = (.ok (), ⟨.confidenceBound (s.absorb dr (s.scores.of o)), g, lines⟩) := by
  rw [Scheme.update, result_bind, result_own]
  simp only
  rw [result_exchange, update_ofNat h]

end ConfidenceBound

/-! ## 4. The bandit -/

namespace ArmSelector

variable {K X : Type} [Scalar K] [Solution K X] {s : ArmSelector K (EpsilonGreedy K)}
  {pairs : List (Nat × Nat)}

/-- How often the arm of a legal pair was rewarded. -/
def pulls (s : ArmSelector K (EpsilonGreedy K)) (dr : Nat × Nat) : Nat :=
  match s.armOfPair (Pair.ofNat dr) with
  | .ok arm => (s.policy.arms[arm]?.map Estimate.count).getD 0
  | .error _ => 0

/-- The policy was rewarded for these pairs since the scheme was made. -/
structure Learned (s : ArmSelector K (EpsilonGreedy K)) (pairs : List (Nat × Nat)) : Prop where
  turning : s.Turning
  tells : Tells s.coupling s.pulls pairs

omit [Scalar K] in
theorem pulls_eq {dr : Nat × Nat} (h : s.coupling.allows dr.1 dr.2 = true) :
    s.pulls dr = (s.policy.arms[s.table.index dr]?.map Estimate.count).getD 0 := by
  rw [pulls, armOfPair_ofNat h]

theorem learned_of_make {scores : List K} {numDestroy numRepair : Nat}
    {policy? : Option (EpsilonGreedy K)} {coupling? : Option Coupling}
    (h : make EpsilonGreedy.policy scores numDestroy numRepair policy? coupling? = .ok s) :
    s.Learned [] := by
  refine ⟨turning_of_make h, .nil fun dr hdr => ?_⟩
  rw [pulls_eq hdr]
  unfold make at h
  obtain ⟨⟨c, usable⟩, -, h⟩ := Checks.bind_ok_iff.1 h
  obtain ⟨scores', -, h⟩ := Checks.bind_ok_iff.1 h
  cases policy? with
  | none => exact absurd h (by simp [Checks.throw_ok_iff])
  | some policy =>
    cases Checks.pure_ok_iff.1 h
    simp only [EpsilonGreedy.policy, EpsilonGreedy.reset, List.getElem?_replicate]
    split <;> rfl

/-- A reward counts for the pair of its arm only. -/
theorem pulls_reward {policy : EpsilonGreedy K} {dr x : Nat × Nat} {reward : K}
    (hu : s.policy.update (s.table.index dr) reward = .ok policy)
    (hx : s.coupling.allows x.1 x.2 = true) (hs : s.Turning) :
    pulls { s with policy } x = s.pulls x + if x = dr then 1 else 0 := by
  have hlt : s.table.index x < s.policy.arms.length := by
    rw [hs]
    exact PairTable.index_lt_size hx
  rw [pulls_eq hx, pulls_eq (s := { s with policy }) hx]
  unfold EpsilonGreedy.update at hu
  split at hu
  · cases hu
    simp only [List.getElem?_modify, List.getElem?_eq_getElem hlt, Option.map_eq_map,
      Option.map_some, Option.getD_some]
    by_cases h : x = dr
    · rw [if_pos h, if_pos (by rw [h])]
      rfl
    · have hne : ¬s.table.index dr = s.table.index x := fun heq =>
        h ((PairTable.index_inj hx).1 heq.symm)
      rw [if_neg h, if_neg hne]
      rfl
  · exact absurd hu (by simp)

/-- **A report counts for its pair.** -/
theorem Learned.update {y : X} {dr : Nat × Nat} {o : Outcome}
    {w v : Setting K (ArmSelector K (EpsilonGreedy K))} (h : w.own.Learned pairs)
    (hu : result (update EpsilonGreedy.policy y (Pair.ofNat dr) o) w = (.ok (), v)) :
    v.own.Learned (pairs ++ [dr]) ∧ v.own.coupling = w.own.coupling := by
  unfold ArmSelector.update at hu
  rw [result_bind, result_own, bind_ok_iff] at hu
  obtain ⟨arm, u, harm, hu⟩ := hu
  rw [result_ofExcept, Prod.mk.injEq] at harm
  obtain ⟨harm, rfl⟩ := harm
  obtain ⟨x, hx, hallow, rfl⟩ := exists_of_armOfPair harm
  obtain rfl : dr = x := Pair.ofNat_injective hx
  rw [contextFor_policy, result_bind, result_ofExcept] at hu
  simp only at hu
  rw [result_reward] at hu
  split at hu
  · rename_i policy hp
    cases hu
    refine ⟨⟨(EpsilonGreedy.length_update hp).trans h.turning, ?_⟩, rfl⟩
    exact h.tells.snoc hallow fun y hy => pulls_reward hp hy h.turning
  · exact absurd hu (by simp)

end ArmSelector

/-! ## 5. Both as schemes of a search -/

/-- What holds of a scheme and the pairs that were reported to it: a selection changes nothing about
it, and a report adds its pair. -/
structure Learns {K X σ : Type} (m : Selector K X σ) (Holds : List (Nat × Nat) → σ → Prop) :
    Prop where
  select : ∀ {pairs best current p} {w v : Setting K σ}, Holds pairs w.own →
    result (m.select best current) w = (.ok p, v) → Holds pairs v.own
  update : ∀ {pairs y dr o} {w v : Setting K σ}, Holds pairs w.own →
    result (m.update y (Pair.ofNat dr) o) w = (.ok (), v) → Holds (pairs ++ [dr]) v.own

namespace Scheme

variable {K X : Type} [Scalar K] [Elementary K] [Solution K X]

theorem learns_confidenceBound (c : Coupling) :
    Learns (selector EpsilonGreedy.policy : Selector K X _) fun pairs s =>
      ∃ t, s = .confidenceBound t ∧ t.coupling = c ∧ t.Learned pairs where
  select := by
    rintro pairs best current p ⟨own, rng, lines⟩ v ⟨t, rfl, hc, ht⟩ h
    cases h
    exact ⟨t, rfl, hc, ht⟩
  update := by
    rintro pairs y dr o ⟨own, rng, lines⟩ v ⟨t, rfl, hc, ht⟩ h
    simp only [selector, update, result_bind, result_own, result_ofExcept] at h
    split at h
    · rename_i s u hs
      rw [Prod.mk.injEq] at hs
      obtain ⟨hs, -⟩ := hs
      cases h
      obtain ⟨hnext, hcoupling⟩ := ht.update hs
      exact ⟨s, rfl, hcoupling.trans hc, hnext⟩
    · exact absurd h (by simp)

theorem learns_bandit (c : Coupling) :
    Learns (selector EpsilonGreedy.policy : Selector K X _) fun pairs s =>
      ∃ t, s = .bandit t ∧ t.coupling = c ∧ t.Learned pairs where
  select := by
    rintro pairs best current p ⟨own, rng, lines⟩ v ⟨t, rfl, hc, ht⟩ h
    obtain ⟨dr, g, hselect, -⟩ := ArmSelector.select_spec current
      (w := (⟨t, rng, lines⟩ : Setting K (ArmSelector K (EpsilonGreedy K)))) ht.turning
    simp only [selector, select, result_bind, result_own, result_map, result_on, hselect] at h
    cases h
    exact ⟨t, rfl, hc, ht⟩
  update := by
    rintro pairs y dr o ⟨own, rng, lines⟩ v ⟨t, rfl, hc, ht⟩ h
    simp only [selector, update, result_bind, result_own, result_on] at h
    obtain ⟨hok, rfl⟩ := Prod.mk.inj h
    obtain ⟨hnext, hcoupling⟩ := ht.update (Prod.ext hok rfl)
    exact ⟨_, rfl, hcoupling.trans hc, hnext⟩

end Scheme

end LargeNeighbourhood
