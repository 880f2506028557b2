/-
# Sweep and ranking of the confidence bound

A confidence bound that is told about legal pairs counts every report, so what it proposes can be
said from the reports alone.

As long as some legal pair was not reported, it proposes the first of these row by row, and looks
at no mean (`Coupling.FirstMissing`).  Each round of a search proposes a pair and reports it.  So
the first rounds go through the legal pairs in their order, once each, whatever becomes of the
candidates (`result_play`).

Once every legal pair was reported, every count is positive.  The bounds of all arms are then
defined, and the foremost of them is proposed.  That no division by zero takes part is said by
exchanging the division: any other one that is the same wherever the divisor is not zero leads to
the same proposal (`propose_dividing`).
-/
import Mathlib
import LargeNeighbourhood.Proofs.Selection.Means

namespace LargeNeighbourhood

open Act

/-! ## 1. The first missing pair -/

namespace Coupling

variable {c : Coupling} {pairs : List (Nat × Nat)} {dr x : Nat × Nat} {k : Nat}

/-- The first legal pair, row by row, that is not among some pairs. -/
structure FirstMissing (c : Coupling) (pairs : List (Nat × Nat)) (dr : Nat × Nat) : Prop where
  legal : c.allows dr.1 dr.2 = true
  missing : dr ∉ pairs
  before : ∀ x, c.allows x.1 x.2 = true → Earlier x dr → x ∈ pairs

/-- After some legal pairs in their order, the next one is the first that is missing. -/
theorem FirstMissing.eq_getElem (h : c.FirstMissing (c.legalPairs.take k) dr)
    (hk : k < c.legalPairs.length) : c.legalPairs[k] = dr := by
  obtain ⟨j, hj, rfl⟩ := List.getElem_of_mem (mem_legalPairs.2 h.legal)
  rcases Nat.lt_trichotomy j k with hjk | rfl | hkj
  · -- A pair in front of the next one is not missing.
    exact absurd (List.mem_take_iff_getElem.2 ⟨j, by omega, rfl⟩) h.missing
  · rfl
  · -- Behind the next one, the next one itself would have to be there already.
    have hearlier : Earlier c.legalPairs[k] c.legalPairs[j] :=
      List.pairwise_iff_getElem.1 c.pairwise_legalPairs k j hk hj hkj
    have hmem := h.before _ (mem_legalPairs.1 (List.getElem_mem hk)) hearlier
    obtain ⟨i, hi, heq⟩ := List.mem_take_iff_getElem.1 hmem
    have hik : i = k := (List.Nodup.getElem_inj_iff c.nodup_legalPairs).1 heq
    omega

end Coupling

namespace ConfidenceBound

/-! ## 2. What a scheme was told -/

section Told

variable {K X π : Type} [Scalar K] {s : ConfidenceBound K} {reports : List (Report X)}
  {pairs : List (Nat × Nat)} {dr : Nat × Nat}

/-- The scheme after some reports about legal pairs. -/
def told (s : ConfidenceBound K) (reports : List (Report X)) : ConfidenceBound K :=
  reports.foldl (fun t r => t.absorb r.pair (t.scores.of r.outcome)) s

theorem told_cons (r : Report X) (rest : List (Report X)) :
    s.told (r :: rest) = (s.absorb r.pair (s.scores.of r.outcome)).told rest := rfl

/-- Reports change neither the scores nor the coupling nor the weight of the bonus. -/
theorem told_params (s : ConfidenceBound K) (reports : List (Report X)) :
    (s.told reports).scores = s.scores ∧ (s.told reports).coupling = s.coupling ∧
      (s.told reports).alpha = s.alpha := by
  induction reports generalizing s with
  | nil => exact ⟨rfl, rfl, rfl⟩
  | cons r rest ih => exact ih _

/-- A scheme takes all reports about legal pairs, and neither draws nor says anything. -/
theorem result_tell [Solution K X] (p : Policy K π)
    (hlegal : ∀ r ∈ reports, s.coupling.allows r.pair.1 r.pair.2 = true) (g : Generator)
    (lines : Array (Line K)) :
    result (Scheme.tell p reports) ⟨.confidenceBound s, g, lines⟩
      = (.ok (), ⟨.confidenceBound (s.told reports), g, lines⟩) := by
  induction reports generalizing s with
  | nil => rfl
  | cons r rest ih =>
    obtain ⟨hr, hrest⟩ := List.forall_mem_cons.1 hlegal
    rw [Scheme.tell, result_bind, result_update p r.candidate r.outcome hr]
    exact ih hrest

/-- The scheme counts what it is told. -/
theorem Learned.told (h : s.Learned pairs)
    (hlegal : ∀ r ∈ reports, s.coupling.allows r.pair.1 r.pair.2 = true) :
    (s.told reports).Learned (pairs ++ reports.map Report.pair) := by
  induction reports generalizing s pairs with
  | nil => rwa [List.map_nil, List.append_nil]
  | cons r rest ih =>
    obtain ⟨hr, hrest⟩ := List.forall_mem_cons.1 hlegal
    rw [told_cons, List.map_cons, List.append_cons]
    exact ih (h.update (update_ofNat hr)).1 hrest

/-- An arm that was never reported promises one. -/
def Hopeful (s : ConfidenceBound K) : Prop :=
  ∀ a ∈ s.arms, a.estimate.count = 0 → a.estimate.mean = 1

theorem hopeful_of_make {scores : List K} {alpha : K} {numDestroy numRepair : Nat}
    {coupling? : Option Coupling} (h : make scores alpha numDestroy numRepair coupling? = .ok s) :
    s.Hopeful := by
  intro a ha _
  rw [(mem_arms.1 ha).2, known_of_make h]

theorem Hopeful.absorb (h : s.Hopeful) (hdr : s.coupling.allows dr.1 dr.2 = true) (score : K) :
    (s.absorb dr score).Hopeful := by
  intro b hb hcount
  rw [arms_absorb hdr] at hb
  obtain ⟨a, ha, rfl⟩ := List.mem_map.1 hb
  split at hcount
  · exact absurd hcount (Nat.succ_ne_zero _)
  · rename_i hpair
    rw [if_neg hpair]
    exact h a ha hcount

theorem Hopeful.told (h : s.Hopeful)
    (hlegal : ∀ r ∈ reports, s.coupling.allows r.pair.1 r.pair.2 = true) :
    (s.told reports).Hopeful := by
  induction reports generalizing s with
  | nil => exact h
  | cons r rest ih =>
    obtain ⟨hr, hrest⟩ := List.forall_mem_cons.1 hlegal
    exact ih (h.absorb hr _) hrest

/-- What is known of a pair that was never reported. -/
theorem Hopeful.estimate (h : s.Hopeful) {p : Pair} {e : Estimate K} (he : s.estimate p = .ok e)
    (hcount : e.count = 0) : e.mean = 1 := by
  obtain ⟨pair, hpair, he⟩ := Checks.bind_ok_iff.1 he
  cases Checks.pure_ok_iff.1 he
  exact h ⟨pair, s.known pair⟩ (mem_arms.2 ⟨(Coupling.requireLegal_eq_ok hpair).2, rfl⟩) hcount

end Told

/-! ## 3. Missing pairs first -/

section Missing

variable {K X π : Type} [Scalar K] {s : ConfidenceBound K} {a : Arm K}
  {pairs : List (Nat × Nat)} {x : Nat × Nat}

/-- An arm has the count of its pair. -/
theorem count_eq_pulls (ha : a ∈ s.arms) : a.estimate.count = s.pulls a.pair := by
  obtain ⟨hlegal, hknown⟩ := mem_arms.1 ha
  rw [pulls_eq hlegal, hknown]

theorem Learned.count_eq_zero_iff (h : s.Learned pairs) (ha : a ∈ s.arms) :
    a.estimate.count = 0 ↔ a.pair ∉ pairs := by
  rw [count_eq_pulls ha, h.tells.count _ (allows_of_mem_arms ha), List.count_eq_zero]

variable [Elementary K]

/-- **A legal pair that was not reported is proposed before any other**, the first one first. -/
theorem Learned.firstMissing (h : s.Learned pairs) (hx : s.coupling.allows x.1 x.2 = true)
    (hmissing : x ∉ pairs) : s.coupling.FirstMissing pairs s.propose.pair := by
  have hsome : (s.arms.find? fun a => a.estimate.count = 0).isSome := by
    obtain ⟨a, ha, rfl⟩ := exists_mem_arms hx
    rw [List.find?_isSome]
    exact ⟨a, ha, decide_eq_true ((h.count_eq_zero_iff ha).2 hmissing)⟩
  obtain ⟨a, ha⟩ := Option.isSome_iff_exists.1 hsome
  have hpropose : s.propose = a := by
    rw [propose, ha]
  obtain ⟨hzero, front, back, harms, hfront⟩ := List.find?_eq_some_iff_append.1 ha
  have hmem : a ∈ s.arms := List.mem_of_find?_eq_some ha
  have hpairs := s.coupling.pairwise_legalPairs
  rw [← s.pairs_arms, harms, List.map_append, List.map_cons, List.pairwise_append] at hpairs
  obtain ⟨-, hback, -⟩ := hpairs
  rw [hpropose]
  refine ⟨?_, (h.count_eq_zero_iff hmem).1 (of_decide_eq_true hzero), fun y hy hearlier => ?_⟩
  · rw [← hpropose]
    exact s.allows_propose
  · obtain ⟨b, hb, rfl⟩ := exists_mem_arms hy
    by_contra hnot
    have hcount := (h.count_eq_zero_iff hb).2 hnot
    rw [harms] at hb
    rcases List.mem_append.1 hb with hb | hb
    · exact absurd hcount (by simpa using hfront b hb)
    · rcases List.mem_cons.1 hb with rfl | hb
      · exact hearlier.asymm hearlier
      · -- Behind the proposed arm stand later pairs only.
        have hlater := (List.pairwise_cons.1 hback).1 b.pair (List.mem_map_of_mem hb)
        exact hearlier.asymm hlater

end Missing

end ConfidenceBound

/-! ## 4. Bounds of all arms -/

/-- Exact arithmetic with another division. -/
@[reducible] def Scalar.dividing {K : Type} [Field K] [LinearOrder K] (div : K → K → K) :
    Scalar K :=
  { (inferInstance : Scalar K) with toDiv := ⟨div⟩ }

namespace ConfidenceBound

section Division

variable {K X : Type} [Field K] [LinearOrder K] {s : ConfidenceBound K} {div : K → K → K}

/-- A scan asks for the values of its arms only. -/
theorem greatestFrom_dividing {value value' : Arm K → K} {arms : List (Arm K)}
    (h : ∀ a ∈ arms, value a = value' a) (best : K) (leader : Arm K) :
    @greatestFrom K (.dividing div) value best leader arms
      = greatestFrom value' best leader arms := by
  induction arms generalizing best leader with
  | nil => rfl
  | cons a rest ih =>
    obtain ⟨ha, hrest⟩ := List.forall_mem_cons.1 h
    unfold greatestFrom
    simp only [ha, ih hrest]

theorem greatest_dividing {value value' : Arm K → K} {arms : List (Arm K)}
    (h : ∀ a ∈ arms, value a = value' a) (fallback : Arm K) :
    @greatest K (.dividing div) value fallback arms = greatest value' fallback arms := by
  induction arms with
  | nil => rfl
  | cons a rest ih =>
    obtain ⟨ha, hrest⟩ := List.forall_mem_cons.1 h
    unfold greatest
    simp only [ha, greatestFrom_dividing hrest, ih hrest]

/-- **A proposal divides by nothing that is zero.**  With any division that is right elsewhere it
is the same. -/
theorem propose_dividing [IsStrictOrderedRing K] [Elementary K]
    (hdiv : ∀ x y, y ≠ 0 → div x y = x / y) (s : ConfidenceBound K) :
    @propose K (.dividing div) _ s = s.propose := by
  have harms : @arms K (.dividing div) s = s.arms := rfl
  unfold propose
  simp only [harms]
  cases hfind : s.arms.find? fun a => a.estimate.count = 0 with
  | some a => rfl
  | none =>
    have hbound : ∀ a ∈ s.arms,
        @bound K (.dividing div) _ s (@logTime K (.dividing div) _ s) a
          = bound s s.logTime a := by
      intro a ha
      have hcount : ((a.estimate.count : Nat) : K) ≠ 0 := by
        simpa using List.find?_eq_none.1 hfind a ha
      show a.estimate.mean + Elementary.sqrt (div (s.alpha * s.logTime) _) = _
      rw [hdiv _ _ hcount]
      rfl
    exact greatest_dividing hbound _

end Division

end ConfidenceBound

/-! ## 5. Rounds -/

/-- What a search brings to one round of a scheme: its current solution, the candidate that comes
of the proposed pair, and what becomes of that. -/
structure Trial (X : Type) where
  current : X
  candidate : X
  outcome : Outcome

/-- Rounds of a scheme: it proposes a pair, and is told what became of it.  The pairs in order. -/
def Scheme.play {K π X : Type} [Scalar K] [Elementary K] [Solution K X] (p : Policy K π) :
    List (Trial X) → Act K (Scheme K π) (List Pair)
  | [] => return []
  | x :: rest => do
    let pair ← Scheme.select p x.current
    Scheme.update p x.candidate pair x.outcome
    return pair :: (← play p rest)

namespace ConfidenceBound

section Rounds

variable {K X π : Type} [Scalar K] [Elementary K] [Solution K X] {s : ConfidenceBound K}
  {trials : List (Trial X)} {k : Nat}

/-- A proposal changes nothing and draws nothing. -/
theorem result_select (p : Policy K π) (current : X) (g : Generator) (lines : Array (Line K)) :
    result (Scheme.select p current) ⟨.confidenceBound s, g, lines⟩
      = (.ok (Pair.ofNat s.propose.pair), ⟨.confidenceBound s, g, lines⟩) := rfl

/-- One round of a scheme that was told of the first legal pairs. -/
theorem Learned.round (h : s.Learned (s.coupling.legalPairs.take k))
    (hk : k < s.coupling.legalPairs.length) (o : Outcome) :
    s.propose.pair = s.coupling.legalPairs[k] ∧
      (s.absorb s.propose.pair (s.scores.of o)).Learned (s.coupling.legalPairs.take (k + 1)) := by
  have hmissing : s.coupling.legalPairs[k] ∉ s.coupling.legalPairs.take k := by
    intro hmem
    obtain ⟨i, hi, heq⟩ := List.mem_take_iff_getElem.1 hmem
    have hik : i = k := (List.Nodup.getElem_inj_iff s.coupling.nodup_legalPairs).1 heq
    omega
  have hfirst := h.firstMissing (Coupling.mem_legalPairs.1 (List.getElem_mem hk)) hmissing
  refine ⟨(hfirst.eq_getElem hk).symm, ?_⟩
  rw [← List.take_concat_get' _ _ hk, hfirst.eq_getElem hk]
  exact (h.update (update_ofNat s.allows_propose)).1

/-- **The first rounds go through the legal pairs in their order**, whatever becomes of the
candidates. -/
theorem Learned.result_play (p : Policy K π) (h : s.Learned (s.coupling.legalPairs.take k))
    (hlength : k + trials.length ≤ s.coupling.legalPairs.length) (g : Generator)
    (lines : Array (Line K)) :
    ∃ t, result (Scheme.play p trials) ⟨.confidenceBound s, g, lines⟩
      = (.ok (((s.coupling.legalPairs.drop k).take trials.length).map Pair.ofNat),
        ⟨.confidenceBound t, g, lines⟩) := by
  induction trials generalizing s k with
  | nil =>
    rw [List.length_nil, List.take_zero, List.map_nil]
    exact ⟨s, rfl⟩
  | cons x rest ih =>
    rw [List.length_cons] at hlength
    have hk : k < s.coupling.legalPairs.length := by omega
    obtain ⟨hpair, hnext⟩ := h.round hk x.outcome
    obtain ⟨t, ht⟩ := ih hnext (by show k + 1 + rest.length ≤ s.coupling.legalPairs.length; omega)
    refine ⟨t, ?_⟩
    rw [Scheme.play, result_bind, result_select]
    simp only
    rw [result_bind, result_update p x.candidate x.outcome s.allows_propose]
    simp only
    rw [result_bind, ht, List.length_cons, List.drop_eq_getElem_cons hk, List.take_succ_cons,
      List.map_cons, ← hpair]
    rfl

end Rounds

end ConfidenceBound

/-! ## 6. The rule of the confidence bound -/

section Rule

variable {K X π : Type} [Field K] [LinearOrder K] [IsStrictOrderedRing K] [Elementary K]
  [Solution K X]

/-- The upper confidence bound of a pair, from the reports about it. -/
def upperBound (scores : Scores K) (alpha : K) (reports : List (Report X)) (dr : Nat × Nat) : K :=
  averagePaid scores reports dr
    + Elementary.sqrt (alpha * Elementary.log (1 + (reports.length : K))
      / ((reports.countP fun r => r.pair = dr : Nat) : K))

namespace ConfidenceBound

variable {s : ConfidenceBound K} {reports : List (Report X)}

omit [Elementary K] [Solution K X] in
/-- The scheme knows what it is told. -/
theorem Knows.told {seen : List (Report X)} (h : s.Knows seen)
    (hlegal : ∀ r ∈ reports, s.coupling.allows r.pair.1 r.pair.2 = true) :
    (s.told reports).Knows (seen ++ reports) := by
  induction reports generalizing s seen with
  | nil => rwa [List.append_nil]
  | cons r rest ih =>
    obtain ⟨hr, hrest⟩ := List.forall_mem_cons.1 hlegal
    rw [List.append_cons]
    exact ih (h.absorb hr) hrest

omit [IsStrictOrderedRing K] [Solution K X] in
/-- Once every legal pair was reported, the pair with the foremost bound is proposed. -/
theorem foremost_upperBound (hknows : s.Knows reports)
    (hlearned : s.Learned (reports.map Report.pair))
    (hall : ∀ dr, s.coupling.allows dr.1 dr.2 = true → dr ∈ reports.map Report.pair) :
    s.coupling.Foremost (upperBound s.scores s.alpha reports) s.propose.pair := by
  have hpaid : ∀ dr, s.coupling.allows dr.1 dr.2 = true → paid s.scores reports dr ≠ [] := by
    intro dr hdr
    obtain ⟨r, hr, hpair⟩ := List.mem_map.1 (hall dr hdr)
    rw [← List.length_pos_iff, length_paid, List.countP_pos_iff]
    exact ⟨r, hr, decide_eq_true hpair⟩
  have hvalue : upperBound s.scores s.alpha reports = fun dr => averagePaid s.scores reports dr
      + Elementary.sqrt (s.alpha * s.logTime / ((paid s.scores reports dr).length : K)) := by
    funext dr
    rw [upperBound, logTime, hlearned.iteration_eq, List.length_map, length_paid]
  rw [hvalue]
  exact hknows.foremost_bound hpaid

end ConfidenceBound

open ConfidenceBound in
/-- **A confidence bound sweeps the legal pairs, and ranks them afterwards.**  It takes any reports
about legal pairs and counts them.  A proposal draws nothing, changes nothing, and divides by
nothing that is zero.  It is the first legal pair that was never reported, and once there is none,
the first one with the greatest bound.  So the first rounds go through the legal pairs in their
order. -/
theorem confidence_bound_sweeps_then_ranks {scores : List K} {alpha : K}
    {numDestroy numRepair : Nat} {coupling? : Option Coupling} {s : ConfidenceBound K}
    (hs : make scores alpha numDestroy numRepair coupling? = .ok s) (p : Policy K π)
    (g : Generator) (lines : Array (Line K)) :
    (∀ reports : List (Report X), (∀ r ∈ reports, s.coupling.allows r.pair.1 r.pair.2 = true) →
      ∃ t, result (Scheme.tell p reports) ⟨.confidenceBound s, g, lines⟩
          = (.ok (), ⟨.confidenceBound t, g, lines⟩) ∧
        t.iteration = reports.length ∧
        t.arms.map Arm.pair = s.coupling.legalPairs ∧
        (∀ dr, s.coupling.allows dr.1 dr.2 = true →
          ∃ e, t.estimate (Pair.ofNat dr) = .ok e ∧
            e.count = reports.countP (fun r => r.pair = dr) ∧ (e.count = 0 → e.mean = 1) ∧
            (0 < e.count → e.mean = averagePaid s.scores reports dr)) ∧
        (∀ (current : X) g lines, result (Scheme.select p current) ⟨.confidenceBound t, g, lines⟩
          = (.ok (Pair.ofNat t.propose.pair), ⟨.confidenceBound t, g, lines⟩)) ∧
        (∀ div : K → K → K, (∀ x y, y ≠ 0 → div x y = x / y) →
          @propose K (.dividing div) _ t = t.propose) ∧
        (∀ dr, s.coupling.allows dr.1 dr.2 = true → dr ∉ reports.map Report.pair →
          s.coupling.FirstMissing (reports.map Report.pair) t.propose.pair) ∧
        ((∀ dr, s.coupling.allows dr.1 dr.2 = true → dr ∈ reports.map Report.pair) →
          s.coupling.allows t.propose.pair.1 t.propose.pair.2 = true ∧
          ∀ dr, s.coupling.allows dr.1 dr.2 = true →
            upperBound s.scores alpha reports dr
              ≤ upperBound s.scores alpha reports t.propose.pair ∧
            (Coupling.Earlier dr t.propose.pair → upperBound s.scores alpha reports dr
              < upperBound s.scores alpha reports t.propose.pair))) ∧
      (∀ trials : List (Trial X), trials.length ≤ s.coupling.legalPairs.length →
        ∃ t, result (Scheme.play p trials) ⟨.confidenceBound s, g, lines⟩
          = (.ok ((s.coupling.legalPairs.take trials.length).map Pair.ofNat),
            ⟨.confidenceBound t, g, lines⟩)) ∧
      s.coupling.legalPairs.Pairwise Coupling.Earlier ∧
      ∀ dr, dr ∈ s.coupling.legalPairs ↔ s.coupling.allows dr.1 dr.2 = true := by
  obtain ⟨hknows, halpha, -, -⟩ := knows_of_make (X := X) hs
  have hlearned := learned_of_make hs
  refine ⟨fun reports hlegal => ?_, fun trials hlength => ?_, s.coupling.pairwise_legalPairs,
    fun dr => Coupling.mem_legalPairs⟩
  · obtain ⟨hscores, hcoupling, halpha'⟩ := told_params s reports
    have htold : (s.told reports).Learned (reports.map Report.pair) := hlearned.told hlegal
    have hmeans : (s.told reports).Knows reports := hknows.told hlegal
    refine ⟨s.told reports, result_tell p hlegal g lines, ?_, ?_, fun dr hdr => ?_,
      fun current g lines => result_select p current g lines,
      fun div hdiv => propose_dividing hdiv _, fun dr hdr hmissing => ?_, fun hall => ?_⟩
    · rw [htold.iteration_eq, List.length_map]
    · rw [← hcoupling]
      exact (s.told reports).pairs_arms
    · rw [← hcoupling] at hdr
      obtain ⟨e, hestimate, haverages⟩ := hmeans.estimate hdr
      rw [hscores] at haverages
      refine ⟨e, hestimate, haverages.count_eq.trans (length_paid ..), fun hzero => ?_,
        fun hpos => haverages.mean_eq ?_⟩
      · exact ((hopeful_of_make hs).told hlegal).estimate hestimate hzero
      · rw [haverages.count_eq] at hpos
        exact List.length_pos_iff.1 hpos
    · rw [← hcoupling] at hdr ⊢
      exact htold.firstMissing hdr hmissing
    · rw [← hcoupling] at hall ⊢
      have hforemost := foremost_upperBound hmeans htold hall
      rw [hscores, halpha', halpha] at hforemost
      exact ⟨hforemost.legal, fun dr hdr => ⟨hforemost.le dr hdr, hforemost.lt hdr⟩⟩
  · have hnone : s.Learned (s.coupling.legalPairs.take 0) := hlearned
    rw [← Nat.zero_add trials.length] at hlength
    exact hnone.result_play p hlength g lines

end Rule

namespace Countdown

/-- Two operators of each kind, of which the first two may not be paired. -/
def sparse : Coupling := Coupling.ofRule 2 2 fun d r => !(d == 0 && r == 0)

theorem usable_sparse : sparse.Usable := ⟨by decide, by decide, by decide⟩

/-- A new confidence bound that explores, for these operators. -/
noncomputable def boundSparse : ConfidenceBound ℝ where
  scores := ⟨3, 2, 1, 0, []⟩
  alpha := 1 / 2
  table := .ofCoupling sparse usable_sparse
  iteration := 0
  means := Array.replicate 4 1
  counts := Array.replicate 4 0
  size_means := Array.size_replicate
  size_counts := Array.size_replicate

theorem make_boundSparse :
    ConfidenceBound.make [3, 2, 1, 0] (1 / 2 : ℝ) 2 2 (some sparse) = .ok boundSparse := by
  have hcoupling : Coupling.forScheme 2 2 (some sparse)
      = (.ok ⟨sparse, usable_sparse⟩ : Except (Fault ℝ) _) := rfl
  rw [ConfidenceBound.make, hcoupling, scores_two]
  simp only [Checks.bind_ok_iff, Checks.guard_ok_iff, Checks.pure_ok_iff]
  refine ⟨_, rfl, _, rfl, ?_, rfl⟩
  norm_num [Scalar.within]

/-- The last pair is reported twice, the first once, the one between them never. -/
noncomputable def gapReports : List (Report (Level ℝ)) :=
  [⟨⟨1⟩, (1, 1), .best⟩, ⟨⟨0⟩, (0, 1), .reject⟩, ⟨⟨2⟩, (1, 1), .accept⟩]

end Countdown

open Countdown in
/-- Told of the last pair twice and of the first one once, the scheme proposes the one between
them; and new, it plays all three in their order. -/
theorem confidence_bound_sweeps_sparse :
    ConfidenceBound.make [3, 2, 1, 0] (1 / 2 : ℝ) 2 2 (some sparse) = .ok boundSparse ∧
    (∃ t, result (Scheme.tell EpsilonGreedy.policy gapReports)
          ⟨.confidenceBound boundSparse, ⟨0, 1⟩, #[]⟩
        = (.ok (), ⟨.confidenceBound t, ⟨0, 1⟩, #[]⟩) ∧
      t.iteration = 3 ∧ t.propose.pair = (1, 0)) ∧
    ∀ trials : List (Trial (Level ℝ)), trials.length = 3 →
      ∃ t, result (Scheme.play EpsilonGreedy.policy trials)
          ⟨.confidenceBound boundSparse, ⟨0, 1⟩, #[]⟩
        = (.ok [⟨0, 1⟩, ⟨1, 0⟩, ⟨1, 1⟩], ⟨.confidenceBound t, ⟨0, 1⟩, #[]⟩) := by
  have hlegal : ∀ r ∈ gapReports, boundSparse.coupling.allows r.pair.1 r.pair.2 = true := by
    simp only [gapReports, List.forall_mem_cons]
    exact ⟨rfl, rfl, rfl, fun r hr => absurd hr List.not_mem_nil⟩
  obtain ⟨htold, hplayed, -, -⟩ := confidence_bound_sweeps_then_ranks (X := Level ℝ)
    make_boundSparse EpsilonGreedy.policy ⟨0, 1⟩ #[]
  refine ⟨make_boundSparse, ?_, fun trials htrials => ?_⟩
  · obtain ⟨t, ht, hiteration, -, -, -, -, hmissing, -⟩ := htold gapReports hlegal
    have hnot : ((1, 0) : Nat × Nat) ∉ gapReports.map Report.pair := by
      simp [gapReports]
    have hfirst := hmissing (1, 0) rfl hnot
    refine ⟨t, ht, hiteration, ?_⟩
    have hmem := Coupling.mem_legalPairs.2 hfirst.legal
    have hpairs : boundSparse.coupling.legalPairs = [(0, 1), (1, 0), (1, 1)] := rfl
    rw [hpairs] at hmem
    have hpaired := hfirst.missing
    simp only [gapReports, List.map_cons, List.map_nil, List.mem_cons, List.not_mem_nil,
      or_false] at hmem hpaired
    tauto
  · have hle : trials.length ≤ boundSparse.coupling.legalPairs.length := htrials.le
    obtain ⟨t, ht⟩ := hplayed trials hle
    rw [htrials] at ht
    exact ⟨t, ht⟩

end LargeNeighbourhood
