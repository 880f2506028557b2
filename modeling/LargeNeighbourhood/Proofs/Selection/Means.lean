/-
# Two bandits with one opinion

The confidence bound and the bandit with the epsilon-greedy policy keep their means in different
ways: the one goes through the sum and starts at one, the other moves towards each new value and
starts at zero; the one keeps a cell for every pair, the other numbers the legal ones.  In exact
arithmetic both means are the arithmetic mean of the scores that were reported
(`Estimate.Averages`), since the first value replaces whatever the mean was before.  So two new
schemes with the same scores that are told the same reports know the same of every pair.

Without exploration, and once every legal pair was reported, both propose by scanning these means,
and find the foremost pair, of which there is only one.  What the confidence bound adds to the means
is then the same for all arms, so it does not matter what the square root of nothing is.
-/
import Mathlib
import LargeNeighbourhood.Proofs.Acceptance.NewBest
import LargeNeighbourhood.Proofs.Random.Draws
import LargeNeighbourhood.Proofs.Selection.Policies
import LargeNeighbourhood.Proofs.Selection.Pulls
import LargeNeighbourhood.Proofs.Selection.Scans

namespace LargeNeighbourhood

open Act

/-! ## 1. Means -/

namespace Estimate

variable {K : Type} [Field K] {xs : List K} {e : Estimate K}

/-- The arithmetic mean. -/
def average (xs : List K) : K := xs.sum / (xs.length : K)

/-- The mean after one more value, in terms of the sum before. -/
theorem average_snoc (xs : List K) (x : K) :
    average (xs ++ [x]) = (xs.sum + x) / ((xs.length : K) + 1) := by
  unfold average
  rw [List.sum_append, List.sum_singleton, List.length_append, List.length_singleton,
    Nat.cast_add, Nat.cast_one]

/-- The estimate counts these values, and its mean is theirs once there are any. -/
structure Averages (e : Estimate K) (xs : List K) : Prop where
  count_eq : e.count = xs.length
  mean_eq : xs ≠ [] → e.mean = average xs

theorem Averages.new (x : K) : Averages { mean := x } ([] : List K) where
  count_eq := rfl
  mean_eq := fun h => absurd rfl h

variable [LinearOrder K] [IsStrictOrderedRing K]

/-- What a mean of some values has to do with their sum; without values it is multiplied away. -/
theorem Averages.count_mul_mean (h : e.Averages xs) : (e.count : K) * e.mean = xs.sum := by
  rw [h.count_eq]
  by_cases hxs : xs = []
  · rw [hxs]
    simp
  · have hlength : (xs.length : K) ≠ 0 := by
      simpa using hxs
    rw [h.mean_eq hxs, average, mul_div_cancel₀ _ hlength]

/-- By way of the sum ... -/
theorem Averages.absorb (h : e.Averages xs) (x : K) : (e.absorb x).Averages (xs ++ [x]) where
  count_eq := by simp [Estimate.absorb, h.count_eq]
  mean_eq := fun _ => by
    rw [average_snoc, ← h.count_mul_mean, ← h.count_eq]
    rfl

/-- ... or towards the new value, the mean becomes the mean of all. -/
theorem Averages.nudge (h : e.Averages xs) (x : K) : (e.nudge x).Averages (xs ++ [x]) where
  count_eq := by simp [Estimate.nudge, h.count_eq]
  mean_eq := fun _ => by
    have hpos : ((e.count : K) + 1) ≠ 0 := Nat.cast_add_one_ne_zero _
    have hmean : (e.nudge x).mean = e.mean + (x - e.mean) / ((e.count : K) + 1) := by
      simp [Estimate.nudge]
    rw [average_snoc, ← h.count_mul_mean, ← h.count_eq, hmean]
    field_simp
    ring

end Estimate

/-! ## 2. Reports, one after the other -/

/-- A candidate, the pair that made it, and what became of it. -/
structure Report (X : Type) where
  candidate : X
  pair : Nat × Nat
  outcome : Outcome

/-- What was paid for a pair, report by report. -/
def paid {K X : Type} (scores : Scores K) (reports : List (Report X)) (dr : Nat × Nat) : List K :=
  (reports.filter fun r => r.pair = dr).map fun r => scores.of r.outcome

theorem length_paid {K X : Type} (scores : Scores K) (reports : List (Report X))
    (dr : Nat × Nat) : (paid scores reports dr).length = reports.countP fun r => r.pair = dr := by
  rw [paid, List.length_map, List.countP_eq_length_filter]

theorem paid_snoc {K X : Type} (scores : Scores K) (reports : List (Report X)) (r : Report X)
    (dr : Nat × Nat) :
    paid scores (reports ++ [r]) dr =
      paid scores reports dr ++ if r.pair = dr then [scores.of r.outcome] else [] := by
  unfold paid
  rw [List.filter_append, List.map_append, List.filter_singleton]
  split <;> simp_all

/-- Tells a scheme some reports. -/
def Scheme.tell {K π X : Type} [Scalar K] [Solution K X] (p : Policy K π) :
    List (Report X) → Act K (Scheme K π) Unit
  | [] => return ()
  | r :: rest => do
    Scheme.update p r.candidate (Pair.ofNat r.pair) r.outcome
    tell p rest

namespace ConfidenceBound

variable {K X π : Type} [Field K] [LinearOrder K] [IsStrictOrderedRing K] [Solution K X]
  {s : ConfidenceBound K} {seen reports : List (Report X)}

/-- Every estimate is that of the scores of its pair. -/
def Knows (s : ConfidenceBound K) (reports : List (Report X)) : Prop :=
  ∀ a ∈ s.arms, a.estimate.Averages (paid s.scores reports a.pair)

omit [IsStrictOrderedRing K] [Solution K X] in
theorem knows_of_make {scores : List K} {alpha : K} {numDestroy numRepair : Nat}
    {coupling? : Option Coupling} (h : make scores alpha numDestroy numRepair coupling? = .ok s) :
    s.Knows ([] : List (Report X)) ∧ s.alpha = alpha ∧ Scores.ofList scores = .ok s.scores ∧
      ∃ u, Coupling.forScheme numDestroy numRepair coupling?
        = (.ok ⟨s.coupling, u⟩ : Except (Fault K) _) := by
  have hknows : s.Knows ([] : List (Report X)) := by
    intro a ha
    rw [(mem_arms.1 ha).2, known_of_make h]
    exact .new 1
  unfold make at h
  obtain ⟨⟨c, usable⟩, hcoupling, h⟩ := Checks.bind_ok_iff.1 h
  obtain ⟨scores', hscores, h⟩ := Checks.bind_ok_iff.1 h
  obtain ⟨-, h⟩ := Checks.guard_ok_iff.1 h
  cases Checks.pure_ok_iff.1 h
  exact ⟨hknows, rfl, hscores, usable, hcoupling⟩

omit [Solution K X] in
/-- A report is taken in by its pair. -/
theorem Knows.absorb (h : s.Knows seen) {r : Report X}
    (hr : s.coupling.allows r.pair.1 r.pair.2 = true) :
    (s.absorb r.pair (s.scores.of r.outcome)).Knows (seen ++ [r]) := by
  intro b hb
  rw [arms_absorb hr] at hb
  obtain ⟨a, ha, rfl⟩ := List.mem_map.1 hb
  show Estimate.Averages _ (paid s.scores (seen ++ [r]) _)
  rw [paid_snoc]
  split
  · rename_i hpair
    rw [if_pos hpair.symm]
    exact (h a ha).absorb _
  · rename_i hpair
    rw [if_neg fun heq => hpair heq.symm, List.append_nil]
    exact h a ha

/-- **A confidence bound that is told of legal pairs** takes all reports and knows them. -/
theorem Knows.tell (p : Policy K π) (h : s.Knows seen)
    (hlegal : ∀ r ∈ reports, s.coupling.allows r.pair.1 r.pair.2 = true) (g : Generator)
    (lines : Array (Line K)) :
    ∃ t, result (Scheme.tell p reports) ⟨.confidenceBound s, g, lines⟩
        = (.ok (), ⟨.confidenceBound t, g, lines⟩) ∧
      t.Knows (seen ++ reports) ∧ t.coupling = s.coupling ∧ t.scores = s.scores ∧
      t.alpha = s.alpha := by
  induction reports generalizing s seen with
  | nil => exact ⟨s, rfl, by rwa [List.append_nil], rfl, rfl, rfl⟩
  | cons r rest ih =>
    obtain ⟨hr, hrest⟩ := List.forall_mem_cons.1 hlegal
    obtain ⟨t, htold, ht, hcoupling, hscores, halpha⟩ := ih (h.absorb hr) hrest
    refine ⟨t, ?_, ?_, hcoupling, hscores, halpha⟩
    · rw [Scheme.tell, result_bind, result_update p r.candidate r.outcome hr]
      exact htold
    · rwa [List.append_cons]

omit [IsStrictOrderedRing K] [Solution K X] in
/-- What is known of a legal pair. -/
theorem Knows.estimate {dr : Nat × Nat} (h : s.Knows reports)
    (hdr : s.coupling.allows dr.1 dr.2 = true) :
    ∃ e, s.estimate (Pair.ofNat dr) = .ok e ∧ e.Averages (paid s.scores reports dr) :=
  ⟨s.known dr, estimate_ofNat hdr, h ⟨dr, s.known dr⟩ (mem_arms.2 ⟨hdr, rfl⟩)⟩

end ConfidenceBound

namespace ArmSelector

variable {K X : Type} [Field K] [LinearOrder K] [IsStrictOrderedRing K] [Solution K X]
  {s : ArmSelector K (EpsilonGreedy K)} {seen reports : List (Report X)}

/-- The policy has an estimate for every arm, and it is that of the scores of the arm's pair. -/
structure Knows (s : ArmSelector K (EpsilonGreedy K)) (reports : List (Report X)) : Prop where
  turning : s.Turning
  averages : ∀ {arm : Nat} {dr : Nat × Nat} {e : Estimate K}, s.table.pair? arm = some dr →
    s.policy.arms[arm]? = some e → e.Averages (paid s.scores reports dr)

/-- The scheme after its policy was rewarded for a pair. -/
def rewarded (s : ArmSelector K (EpsilonGreedy K)) (dr : Nat × Nat) (score : K) :
    ArmSelector K (EpsilonGreedy K) :=
  { s with policy := { s.policy with
      fit := true
      arms := s.policy.arms.modify (s.table.index dr) fun e => e.nudge score } }

omit [IsStrictOrderedRing K] [Solution K X] in
theorem knows_of_make {scores : List K} {policy : EpsilonGreedy K} {numDestroy numRepair : Nat}
    {coupling? : Option Coupling}
    (h : make EpsilonGreedy.policy scores numDestroy numRepair (some policy) coupling? = .ok s) :
    s.Knows ([] : List (Report X)) ∧ s.policy.epsilon = policy.epsilon ∧
      Scores.ofList scores = .ok s.scores ∧
      ∃ u, Coupling.forScheme numDestroy numRepair coupling?
        = (.ok ⟨s.coupling, u⟩ : Except (Fault K) _) := by
  have hturning := turning_of_make h
  unfold make at h
  obtain ⟨⟨c, usable⟩, hcoupling, h⟩ := Checks.bind_ok_iff.1 h
  obtain ⟨scores', hscores, h⟩ := Checks.bind_ok_iff.1 h
  cases Checks.pure_ok_iff.1 h
  refine ⟨⟨hturning, ?_⟩, rfl, hscores, usable, hcoupling⟩
  intro arm dr e _ he
  have hzero : e = { mean := 0 } := List.eq_of_mem_replicate (List.mem_of_getElem? he)
  rw [hzero]
  exact .new 0

omit [Solution K X] in
/-- A report is taken in by the arm of its pair. -/
theorem Knows.rewarded (h : s.Knows seen) (r : Report X) :
    (s.rewarded r.pair (s.scores.of r.outcome)).Knows (seen ++ [r]) where
  turning := (List.length_modify ..).trans h.turning
  averages := by
    intro arm dr e hpair he
    show Estimate.Averages e (paid s.scores (seen ++ [r]) dr)
    have hindex : arm = s.table.index dr := PairTable.eq_index_of_pair? hpair
    simp only [ArmSelector.rewarded, List.getElem?_modify] at he
    obtain ⟨e', he', rfl⟩ := Option.map_eq_some_iff.1 he
    have hold : e'.Averages (paid s.scores seen dr) := h.averages hpair he'
    rw [paid_snoc]
    by_cases hdr : r.pair = dr
    · rw [if_pos hdr, if_pos (by rw [hindex, hdr])]
      exact hold.nudge _
    · have hne : s.table.index r.pair ≠ arm := by
        rw [hindex]
        intro heq
        exact hdr ((PairTable.index_inj (PairTable.allows_of_pair? hpair)).1 heq.symm).symm
      rw [if_neg hdr, if_neg hne, List.append_nil]
      exact hold

/-- **A bandit that is told of legal pairs** takes all reports and knows them. -/
theorem Knows.tell (h : s.Knows seen)
    (hlegal : ∀ r ∈ reports, s.coupling.allows r.pair.1 r.pair.2 = true) (g : Generator)
    (lines : Array (Line K)) :
    ∃ t, result (Scheme.tell EpsilonGreedy.policy reports) ⟨.bandit s, g, lines⟩
        = (.ok (), ⟨.bandit t, g, lines⟩) ∧
      t.Knows (seen ++ reports) ∧ t.table = s.table ∧ t.scores = s.scores ∧
      t.policy.epsilon = s.policy.epsilon ∧ (reports ≠ [] → t.policy.fit = true) := by
  induction reports generalizing s seen with
  | nil => exact ⟨s, rfl, by rwa [List.append_nil], rfl, rfl, rfl, fun hne => absurd rfl hne⟩
  | cons r rest ih =>
    obtain ⟨hr, hrest⟩ := List.forall_mem_cons.1 hlegal
    have hlt : s.table.index r.pair < s.policy.arms.length := by
      rw [h.turning]
      exact PairTable.index_lt_size hr
    have htaken : result (Scheme.update EpsilonGreedy.policy r.candidate (Pair.ofNat r.pair)
        r.outcome) ⟨.bandit s, g, lines⟩
          = (.ok (), ⟨.bandit (s.rewarded r.pair (s.scores.of r.outcome)), g, lines⟩) := by
      rw [Scheme.update, result_bind, result_own]
      simp only
      rw [result_on, result_update, armOfPair_ofNat (s := s) hr, contextFor_policy]
      simp only
      rw [result_reward, EpsilonGreedy.update, if_pos hlt]
      rfl
    obtain ⟨t, htold, ht, htable, hscores, hepsilon, hfit⟩ := ih (h.rewarded r) hrest
    refine ⟨t, ?_, ?_, htable, hscores, hepsilon, fun _ => ?_⟩
    · rw [Scheme.tell, result_bind, htaken]
      exact htold
    · rwa [List.append_cons]
    · cases rest with
      | nil =>
        rw [Scheme.tell, result_pure] at htold
        cases htold
        rfl
      | cons r' rest => exact hfit (List.cons_ne_nil _ _)

omit [LinearOrder K] [IsStrictOrderedRing K] [Solution K X] in
/-- What is known of a legal pair. -/
theorem Knows.estimate {dr : Nat × Nat} (h : s.Knows reports)
    (hdr : s.coupling.allows dr.1 dr.2 = true) :
    ∃ arm e, s.armOfPair (Pair.ofNat dr) = .ok arm ∧ s.policy.arms[arm]? = some e ∧
      e.Averages (paid s.scores reports dr) := by
  have hlt : s.table.index dr < s.policy.arms.length := by
    rw [h.turning]
    exact PairTable.index_lt_size hdr
  refine ⟨_, _, armOfPair_ofNat hdr, List.getElem?_eq_getElem hlt, ?_⟩
  exact h.averages (PairTable.pair?_index hdr) (List.getElem?_eq_getElem hlt)

end ArmSelector

/-! ## 3. The choice without exploration -/

/-- The arithmetic mean of what was paid for a pair. -/
def averagePaid {K X : Type} [Field K] (scores : Scores K) (reports : List (Report X))
    (dr : Nat × Nat) : K :=
  Estimate.average (paid scores reports dr)

namespace ConfidenceBound

variable {K X : Type} [Field K] [LinearOrder K] [IsStrictOrderedRing K] [Elementary K]
  {s : ConfidenceBound K} {reports : List (Report X)}

omit [IsStrictOrderedRing K] in
/-- A confidence bound that was told of every legal pair proposes the pair with the foremost
bound. -/
theorem Knows.foremost_bound (h : s.Knows reports)
    (hall : ∀ dr, s.coupling.allows dr.1 dr.2 = true → paid s.scores reports dr ≠ []) :
    s.coupling.Foremost
      (fun dr => averagePaid s.scores reports dr
        + Elementary.sqrt (s.alpha * s.logTime / ((paid s.scores reports dr).length : K)))
      s.propose.pair := by
  have hpaid : ∀ a ∈ s.arms, paid s.scores reports a.pair ≠ [] := fun a ha =>
    hall _ (allows_of_mem_arms ha)
  have hnone : (s.arms.find? fun a => a.estimate.count = 0) = none := by
    rw [List.find?_eq_none]
    intro a ha hcount
    rw [decide_eq_true_eq, (h a ha).count_eq, List.length_eq_zero_iff] at hcount
    exact hpaid a ha hcount
  have hpropose : s.propose
      = greatest (s.bound s.logTime) (s.arms.head s.arms_ne_nil) s.arms := by
    rw [propose, hnone]
  have hvalues : s.arms.map (s.bound s.logTime) = s.coupling.legalPairs.map
      fun dr => averagePaid s.scores reports dr
        + Elementary.sqrt (s.alpha * s.logTime / ((paid s.scores reports dr).length : K)) := by
    rw [← s.pairs_arms, List.map_map]
    refine List.map_congr_left fun a ha => ?_
    rw [bound, (h a ha).mean_eq (hpaid a ha), (h a ha).count_eq]
    rfl
  obtain ⟨k, v, hgreatest, hk⟩ := firstGreatest_greatest (s.bound s.logTime)
    (s.arms.head s.arms_ne_nil) s.arms_ne_nil
  rw [hvalues] at hgreatest
  rw [← hpropose] at hk
  have hpair : s.coupling.legalPairs[k]? = some s.propose.pair := by
    rw [← s.pairs_arms, List.getElem?_map, hk, Option.map_some]
  exact Coupling.foremost_of_firstGreatest hgreatest hpair

/-- Without exploration it is the foremost pair by the means. -/
theorem Knows.foremost_propose (h : s.Knows reports) (halpha : s.alpha = 0)
    (hall : ∀ dr, s.coupling.allows dr.1 dr.2 = true → paid s.scores reports dr ≠ []) :
    s.coupling.Foremost (averagePaid s.scores reports) s.propose.pair := by
  have hforemost := h.foremost_bound hall
  simp only [halpha, zero_mul, zero_div] at hforemost
  exact hforemost.of_add

end ConfidenceBound

namespace ArmSelector

variable {K X : Type} [Field K] [LinearOrder K] [IsStrictOrderedRing K] [Solution K X]
  {s : ArmSelector K (EpsilonGreedy K)} {reports : List (Report X)}

/-- Once a policy that does not explore was rewarded, the scheme proposes the pair of the arm with
the greatest mean. -/
theorem result_select_greedy {first : Estimate K} {rest : List (Estimate K)}
    (harms : s.policy.arms = first :: rest) (hfit : s.policy.fit = true)
    (hepsilon : s.policy.epsilon = 0) {dr : Nat × Nat}
    (hdr : s.table.pair? (EpsilonGreedy.greedy first rest) = some dr) (current : X) (g : Generator)
    (lines : Array (Line K)) :
    (result (select EpsilonGreedy.policy current) ⟨s, g, lines⟩).1 = .ok dr := by
  have hpredict : (s.policy.predict g : Except (Fault K) Nat × Generator).1
      = .ok (EpsilonGreedy.greedy first rest) := by
    unfold EpsilonGreedy.predict
    rw [harms]
    simp only
    have hdrawn : ¬(Draw.uniform g : K × Generator).1 < 0 := not_lt.2 (Draw.fraction_nonneg _)
    rw [Sampling.draw_bind_apply, hepsilon, if_neg hdrawn]
    rfl
  have hasks : EpsilonGreedy.policy.fit s.policy = true := hfit
  unfold select
  rw [result_bind, result_own]
  simp only
  rw [if_pos hasks, contextFor_policy, result_bind, result_ofExcept]
  simp only
  rw [result_bind, result_predict, hpredict]
  simp only
  rw [result_ofExcept, pairOfArm, hdr]

/-- Without exploration, a bandit that was told of every legal pair proposes the foremost one,
whatever it draws. -/
theorem Knows.foremost_select (h : s.Knows reports) (hfit : s.policy.fit = true)
    (hepsilon : s.policy.epsilon = 0)
    (hall : ∀ dr, s.coupling.allows dr.1 dr.2 = true → paid s.scores reports dr ≠ []) :
    ∃ dr, s.coupling.Foremost (averagePaid s.scores reports) dr ∧
      ∀ (current : X) g lines,
        (result (select EpsilonGreedy.policy current) ⟨s, g, lines⟩).1 = .ok dr := by
  have hvalues : s.policy.arms.map Estimate.mean
      = s.coupling.legalPairs.map (averagePaid s.scores reports) := by
    refine List.ext_getElem? fun k => ?_
    rw [List.getElem?_map, List.getElem?_map]
    have hlength : s.policy.arms.length = s.coupling.legalPairs.length := by
      rw [h.turning, PairTable.size, s.table.pairs_eq, List.size_toArray]
      rfl
    rcases Nat.lt_or_ge k s.policy.arms.length with hk | hk
    · have hpair := List.getElem?_eq_getElem (hlength ▸ hk : k < s.coupling.legalPairs.length)
      have harm := List.getElem?_eq_getElem hk
      have haverages := h.averages ((s.table.pair?_eq k).trans hpair) harm
      have hlegal := Coupling.mem_legalPairs.1 (List.mem_of_getElem? hpair)
      rw [hpair, harm, Option.map_some, Option.map_some, haverages.mean_eq (hall _ hlegal)]
      rfl
    · rw [List.getElem?_eq_none hk, List.getElem?_eq_none (hlength ▸ hk)]
      rfl
  cases harms : s.policy.arms with
  | nil => exact absurd harms h.turning.arms_ne_nil
  | cons first rest =>
    obtain ⟨v, hgreatest⟩ := EpsilonGreedy.firstGreatest_greedy first rest
    rw [← harms, hvalues] at hgreatest
    obtain ⟨dr, hdr, -⟩ := Option.map_eq_some_iff.1
      ((List.getElem?_map ..).symm.trans hgreatest.getElem?)
    exact ⟨dr, Coupling.foremost_of_firstGreatest hgreatest hdr,
      result_select_greedy harms hfit hepsilon ((s.table.pair?_eq _).trans hdr)⟩

end ArmSelector

/-! ## 4. Both schemes -/

section Agreement

variable {K X : Type} [Field K] [LinearOrder K] [IsStrictOrderedRing K] [Solution K X]
  {reports : List (Report X)} {dr : Nat × Nat}

/-- **The two bandits agree.**  A confidence bound and a bandit with an epsilon-greedy policy, made
for the same operators with the same scores and told the same reports about legal pairs, take all
of them and know the same: how often each pair was reported, and, if it was, the arithmetic mean of
the scores that were paid for it.  Without exploration, once every legal pair was reported, both
propose the foremost pair by these means, whatever is drawn. -/
theorem bandits_agree [Elementary K] {scores : List K} {alpha epsilon : K}
    {numDestroy numRepair : Nat} {coupling? : Option Coupling} {s : ConfidenceBound K}
    {policy : EpsilonGreedy K} {t : ArmSelector K (EpsilonGreedy K)}
    (hs : ConfidenceBound.make scores alpha numDestroy numRepair coupling? = .ok s)
    (hpolicy : EpsilonGreedy.make epsilon = .ok policy)
    (ht : ArmSelector.make EpsilonGreedy.policy scores numDestroy numRepair (some policy) coupling?
      = .ok t)
    (hlegal : ∀ r ∈ reports, s.coupling.allows r.pair.1 r.pair.2 = true) (g : Generator)
    (lines : Array (Line K)) :
    ∃ s' t',
      result (Scheme.tell EpsilonGreedy.policy reports) ⟨.confidenceBound s, g, lines⟩
        = (.ok (), ⟨.confidenceBound s', g, lines⟩) ∧
      result (Scheme.tell EpsilonGreedy.policy reports) ⟨.bandit t, g, lines⟩
        = (.ok (), ⟨.bandit t', g, lines⟩) ∧
      (∀ dr, s.coupling.allows dr.1 dr.2 = true →
        ∃ e arm f, s'.estimate (Pair.ofNat dr) = .ok e ∧
          t'.armOfPair (Pair.ofNat dr) = .ok arm ∧ t'.policy.arms[arm]? = some f ∧
          e.count = reports.countP (fun r => r.pair = dr) ∧ f.count = e.count ∧
          (0 < e.count → e.mean = averagePaid s.scores reports dr ∧ f.mean = e.mean)) ∧
      ((∀ dr, s.coupling.allows dr.1 dr.2 = true → ∃ r ∈ reports, r.pair = dr) →
        alpha = 0 → epsilon = 0 →
        ∃ dr, s.coupling.Foremost (averagePaid s.scores reports) dr ∧
          ∀ (current : X) g lines,
            (result (Scheme.select EpsilonGreedy.policy current)
              ⟨.confidenceBound s', g, lines⟩).1 = .ok (Pair.ofNat dr) ∧
            (result (Scheme.select EpsilonGreedy.policy current)
              ⟨.bandit t', g, lines⟩).1 = .ok (Pair.ofNat dr)) := by
  obtain ⟨hknows, halpha, hscores, usable, hcoupling⟩ :=
    ConfidenceBound.knows_of_make (X := X) hs
  obtain ⟨hknows', hepsilon, hscores', usable', hcoupling'⟩ :=
    ArmSelector.knows_of_make (X := X) ht
  have hsame : t.coupling = s.coupling :=
    congrArg Subtype.val (Except.ok.inj (hcoupling'.symm.trans hcoupling))
  have hpays : t.scores = s.scores := Except.ok.inj (hscores'.symm.trans hscores)
  have hlegal' : ∀ r ∈ reports, t.coupling.allows r.pair.1 r.pair.2 = true := by
    rw [hsame]
    exact hlegal
  obtain ⟨s', htold, hs', hscoupling, hsscores, hsalpha⟩ :=
    hknows.tell EpsilonGreedy.policy hlegal g lines
  obtain ⟨t', htold', ht', httable, htscores, htepsilon, htfit⟩ := hknows'.tell hlegal' g lines
  rw [List.nil_append] at hs' ht'
  have htcoupling : t'.coupling = s.coupling := (congrArg PairTable.coupling httable).trans hsame
  have htpays : t'.scores = s.scores := htscores.trans hpays
  refine ⟨s', t', htold, htold', fun dr hdr => ?_, fun hall halpha0 hepsilon0 => ?_⟩
  · obtain ⟨e, hestimate, he⟩ := hs'.estimate (by rwa [hscoupling])
    obtain ⟨arm, f, harm, hf, hfaverages⟩ := ht'.estimate (by rwa [htcoupling])
    rw [hsscores] at he
    rw [htpays] at hfaverages
    refine ⟨e, arm, f, hestimate, harm, hf, he.count_eq.trans (length_paid ..),
      hfaverages.count_eq.trans he.count_eq.symm, fun hpos => ?_⟩
    have hpaid : paid s.scores reports dr ≠ [] := by
      rw [he.count_eq] at hpos
      exact List.length_pos_iff.1 hpos
    exact ⟨he.mean_eq hpaid, (hfaverages.mean_eq hpaid).trans (he.mean_eq hpaid).symm⟩
  · have hpaid : ∀ dr, s.coupling.allows dr.1 dr.2 = true → paid s.scores reports dr ≠ [] := by
      intro dr hdr
      obtain ⟨r, hr, hpair⟩ := hall dr hdr
      rw [← List.length_pos_iff, length_paid, List.countP_pos_iff]
      exact ⟨r, hr, by simpa using hpair⟩
    have hproposed := hs'.foremost_propose (hsalpha.trans (halpha.trans halpha0))
      (by rwa [hscoupling, hsscores])
    rw [hscoupling, hsscores] at hproposed
    obtain ⟨r, hr, -⟩ := hall s'.propose.pair hproposed.legal
    have hpolicy0 : t'.policy.epsilon = 0 := by
      unfold EpsilonGreedy.make at hpolicy
      split at hpolicy
      · cases hpolicy
        exact htepsilon.trans (hepsilon.trans hepsilon0)
      · exact absurd hpolicy (by simp)
    obtain ⟨dr, hforemost, hselect⟩ := ht'.foremost_select (htfit (List.ne_nil_of_mem hr)) hpolicy0
      (by rwa [htcoupling, htpays])
    rw [htcoupling, htpays] at hforemost
    refine ⟨dr, hforemost, fun current g lines => ⟨?_, ?_⟩⟩
    · rw [hforemost.unique hproposed, Scheme.select, result_bind, result_own]
      rfl
    · rw [Scheme.select, result_bind, result_own]
      simp only
      rw [result_map, result_on, hselect]
      rfl

end Agreement

namespace Countdown

theorem usable_two : (Coupling.all 1 2).Usable := ⟨by decide, by decide, by decide⟩

theorem forScheme_two :
    Coupling.forScheme 1 2 none = (.ok ⟨Coupling.all 1 2, usable_two⟩ : Except (Fault ℝ) _) := rfl

theorem scores_two : Scores.ofList ([3, 2, 1, 0] : List ℝ) = .ok ⟨3, 2, 1, 0, []⟩ := by
  norm_num [Scores.ofList]

/-- A new confidence bound that does not explore, for one destroy and two repair operators. -/
noncomputable def boundTwo : ConfidenceBound ℝ where
  scores := ⟨3, 2, 1, 0, []⟩
  alpha := 0
  table := .ofCoupling (Coupling.all 1 2) usable_two
  iteration := 0
  means := Array.replicate 2 1
  counts := Array.replicate 2 0
  size_means := Array.size_replicate
  size_counts := Array.size_replicate

theorem make_boundTwo : ConfidenceBound.make [3, 2, 1, 0] (0 : ℝ) 1 2 none = .ok boundTwo := by
  rw [ConfidenceBound.make, forScheme_two, scores_two]
  simp only [Checks.bind_ok_iff, Checks.guard_ok_iff, Checks.pure_ok_iff]
  exact ⟨_, rfl, _, rfl, by simp [Scalar.within], rfl⟩

/-- A new bandit that does not explore, for the same operators. -/
noncomputable def banditTwo : ArmSelector ℝ (EpsilonGreedy ℝ) where
  scores := ⟨3, 2, 1, 0, []⟩
  table := .ofCoupling (Coupling.all 1 2) usable_two
  policy := EpsilonGreedy.reset 2 { epsilon := 0 }

theorem make_banditTwo :
    ArmSelector.make EpsilonGreedy.policy ([3, 2, 1, 0] : List ℝ) 1 2 (some { epsilon := 0 }) none
      = .ok banditTwo := by
  rw [ArmSelector.make, forScheme_two, scores_two]
  rfl

/-- The first pair is reported twice, the second once. -/
noncomputable def threeReports : List (Report (Level ℝ)) :=
  [⟨⟨1⟩, (0, 0), .reject⟩, ⟨⟨0⟩, (0, 1), .best⟩, ⟨⟨2⟩, (0, 0), .accept⟩]

theorem averagePaid_first : averagePaid boundTwo.scores threeReports (0, 0) = 1 / 2 := by
  norm_num [averagePaid, Estimate.average, paid, threeReports, boundTwo, Scores.of]

theorem averagePaid_second : averagePaid boundTwo.scores threeReports (0, 1) = 3 := by
  norm_num [averagePaid, Estimate.average, paid, threeReports, boundTwo, Scores.of]

end Countdown

open Countdown in
/-- After three reports with the means one half and three, both bandits propose the second pair,
whatever they draw. -/
theorem bandits_agree_two :
    ConfidenceBound.make [3, 2, 1, 0] (0 : ℝ) 1 2 none = .ok boundTwo ∧
    EpsilonGreedy.make (0 : ℝ) = .ok { epsilon := 0 } ∧
    ArmSelector.make EpsilonGreedy.policy ([3, 2, 1, 0] : List ℝ) 1 2 (some { epsilon := 0 }) none
      = .ok banditTwo ∧
    (∀ r ∈ threeReports, boundTwo.coupling.allows r.pair.1 r.pair.2 = true) ∧
    ∃ s t,
      result (Scheme.tell EpsilonGreedy.policy threeReports)
          ⟨.confidenceBound boundTwo, ⟨0, 1⟩, #[]⟩
        = (.ok (), ⟨.confidenceBound s, ⟨0, 1⟩, #[]⟩) ∧
      result (Scheme.tell EpsilonGreedy.policy threeReports) ⟨.bandit banditTwo, ⟨0, 1⟩, #[]⟩
        = (.ok (), ⟨.bandit t, ⟨0, 1⟩, #[]⟩) ∧
      ∀ (current : Level ℝ) g lines,
        (result (Scheme.select EpsilonGreedy.policy current) ⟨.confidenceBound s, g, lines⟩).1
          = .ok (Pair.ofNat (0, 1)) ∧
        (result (Scheme.select EpsilonGreedy.policy current) ⟨.bandit t, g, lines⟩).1
          = .ok (Pair.ofNat (0, 1)) := by
  have hpolicy : EpsilonGreedy.make (0 : ℝ) = .ok { epsilon := 0 } := by
    simp [EpsilonGreedy.make, Scalar.within]
  have hlegal : ∀ r ∈ threeReports, boundTwo.coupling.allows r.pair.1 r.pair.2 = true := by
    simp only [threeReports, List.forall_mem_cons]
    exact ⟨rfl, rfl, rfl, fun r hr => absurd hr List.not_mem_nil⟩
  have htwo : ∀ dr : Nat × Nat, boundTwo.coupling.allows dr.1 dr.2 = true →
      dr = (0, 0) ∨ dr = (0, 1) := by
    rintro ⟨d, r⟩ hdr
    obtain ⟨hd, hr⟩ : d < 1 ∧ r < 2 := Coupling.lt_of_allows hdr
    simp only [Prod.mk.injEq]
    omega
  obtain ⟨s, t, htold, htold', -, hchoice⟩ :=
    bandits_agree make_boundTwo hpolicy make_banditTwo hlegal ⟨0, 1⟩ #[]
  have hall : ∀ dr : Nat × Nat, boundTwo.coupling.allows dr.1 dr.2 = true →
      ∃ r ∈ threeReports, r.pair = dr := by
    intro dr hdr
    rcases htwo dr hdr with rfl | rfl
    · exact ⟨_, List.mem_cons_self .., rfl⟩
    · exact ⟨_, List.mem_cons_of_mem _ (List.mem_cons_self ..), rfl⟩
  obtain ⟨dr, hforemost, hboth⟩ := hchoice hall rfl rfl
  have hdr : dr = (0, 1) := by
    rcases htwo dr hforemost.legal with rfl | rfl
    · have hle := hforemost.le (0, 1) rfl
      rw [averagePaid_first, averagePaid_second] at hle
      norm_num at hle
    · rfl
  rw [hdr] at hboth
  exact ⟨make_boundTwo, hpolicy, make_banditTwo, hlegal, s, t, htold, htold', hboth⟩

end LargeNeighbourhood
