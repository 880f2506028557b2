/-
# A weight is what its operator's outcomes made of it

A report mixes its score into two weights of a wheel, one for each operator of its pair.  Any number
of selections and of reports about other operators may come between two reports about one operator:
its weight is the fold of its own outcomes, in order, from one on (`Roulette.told`).

So the order in which the reports of different operators are mingled is forgotten, and two reports
without a common operator may change places.  The fold takes means of amounts that lie below the
largest score that counts, cut off at the floor, which bounds every weight from both sides.
-/
import Mathlib
import LargeNeighbourhood.Proofs.Selection.Floor
import LargeNeighbourhood.Proofs.Selection.Requests

namespace LargeNeighbourhood

open Act

namespace Roulette

variable {K X : Type} [Field K] [LinearOrder K]

/-! ## 1. The wheel after some reports -/

/-- The wheel after a report about a pair. -/
def taking (s : Roulette K) (dr : Nat × Nat) (o : Outcome) : Roulette K :=
  { s with
    destroyWeights := s.destroyWeights.modify dr.1 (s.mix (s.scores.of o))
    repairWeights := s.repairWeights.modify dr.2 (s.mix (s.scores.of o)) }

theorem update_ofNat (s : Roulette K) {dr : Nat × Nat} (h : s.coupling.allows dr.1 dr.2 = true)
    (o : Outcome) : s.update (Pair.ofNat dr) o = .ok (s.taking dr o) := by
  rw [update, Coupling.requireLegal_ofNat h]
  rfl

/-- The wheel whose weights are those after some reports. -/
def told (s : Roulette K) (reports : List (Report X)) : Roulette K :=
  { s with
    destroyWeights := (List.range s.coupling.numDestroy).map fun d =>
      weightAfter s.decay s.floor ((outcomesOf Prod.fst d reports).map s.scores.of)
    repairWeights := (List.range s.coupling.numRepair).map fun r =>
      weightAfter s.decay s.floor ((outcomesOf Prod.snd r reports).map s.scores.of) }

/-- One more report is mixed into the weight of the operator that it names on a side. -/
theorem weightAfter_snoc_report (s : Roulette K) (side : Nat × Nat → Nat)
    (reports : List (Report X)) (r : Report X) (i : Nat) :
    weightAfter s.decay s.floor ((outcomesOf side i (reports ++ [r])).map s.scores.of) =
      if i = side r.pair then
        s.mix (s.scores.of r.outcome)
          (weightAfter s.decay s.floor ((outcomesOf side i reports).map s.scores.of))
      else weightAfter s.decay s.floor ((outcomesOf side i reports).map s.scores.of) := by
  rw [outcomesOf_append, outcomesOf_singleton]
  split
  · rw [List.map_append, List.map_singleton, mix_weightAfter]
  · rw [List.append_nil]

/-- A wheel that was told some reports takes one more. -/
theorem taking_told (s : Roulette K) (reports : List (Report X)) (r : Report X) :
    (s.told reports).taking r.pair r.outcome = s.told (reports ++ [r]) := by
  have hweights : ∀ (side : Nat × Nat → Nat) (n : Nat),
      ((List.range n).map fun i =>
          weightAfter s.decay s.floor ((outcomesOf side i reports).map s.scores.of)).modify
          (side r.pair) (s.mix (s.scores.of r.outcome)) =
        (List.range n).map fun i =>
          weightAfter s.decay s.floor ((outcomesOf side i (reports ++ [r])).map s.scores.of) := by
    intro side n
    rw [map_range_modify]
    exact List.map_congr_left fun i _ => (s.weightAfter_snoc_report side reports r i).symm
  rw [told, told, ← hweights Prod.fst, ← hweights Prod.snd]
  rfl

/-- A new wheel was told nothing. -/
theorem New.told_nil {scores : List K} {decay floor : K} {numDestroy numRepair : Nat}
    {s : Roulette K} (h : New scores decay floor numDestroy numRepair s) :
    s.told ([] : List (Report X)) = s := by
  have hone : ∀ (side : Nat × Nat → Nat) (i : Nat),
      weightAfter s.decay s.floor ((outcomesOf side i ([] : List (Report X))).map s.scores.of)
        = 1 := fun _ _ => rfl
  rw [told, map_range_eq_replicate (hone Prod.fst), map_range_eq_replicate (hone Prod.snd),
    h.destroy_eq, h.repair_eq, ← h.destroyWeights_eq, ← h.repairWeights_eq]

/-- Reports about different operators commute. -/
theorem taking_comm (s : Roulette K) {a b : Nat × Nat} (hdestroy : a.1 ≠ b.1)
    (hrepair : a.2 ≠ b.2) (o o' : Outcome) :
    (s.taking a o).taking b o' = (s.taking b o').taking a o := by
  have hmodify : ∀ (xs : List K) {i j : Nat} (f g : K → K), i ≠ j →
      (xs.modify i f).modify j g = (xs.modify j g).modify i f := by
    intro xs i j f g hne
    refine List.ext_getElem (by simp) fun k hk hk' => ?_
    simp only [List.getElem_modify]
    by_cases hi : i = k
    · have hj : j ≠ k := fun hj => hne (hi.trans hj.symm)
      rw [if_neg hj, if_neg hj]
    · rw [if_neg hi, if_neg hi]
  exact congrArg₂ (fun ds rs => { s with destroyWeights := ds, repairWeights := rs })
    (hmodify s.destroyWeights _ _ hdestroy) (hmodify s.repairWeights _ _ hrepair)

variable [IsStrictOrderedRing K]

theorem Turning.told {s : Roulette K} (h : s.Turning) (reports : List (Report X)) :
    (s.told reports).Turning := by
  refine ⟨h.destroy_pos, h.floor_pos, by simp [Roulette.told], by simp [Roulette.told], ?_, ?_⟩
  · intro x hx
    obtain ⟨d, -, rfl⟩ := List.mem_map.1 hx
    exact weightAfter_pos h.floor_pos _ _
  · intro x hx
    obtain ⟨r, -, rfl⟩ := List.mem_map.1 hx
    exact weightAfter_pos h.floor_pos _ _

/-- The weights lie between what they begin with, the floor and the largest score. -/
theorem mem_weights_told {s : Roulette K} (hdecay : 0 ≤ s.decay ∧ s.decay ≤ 1)
    (reports : List (Report X)) {x : K} (hx : x ∈ (s.told reports).weights) :
    min 1 s.floor ≤ x ∧ x ≤ max (max 1 s.floor) s.scores.highest := by
  have hbounds : ∀ outcomes : List Outcome,
      min 1 s.floor ≤ weightAfter s.decay s.floor (outcomes.map s.scores.of) ∧
        weightAfter s.decay s.floor (outcomes.map s.scores.of)
          ≤ max (max 1 s.floor) s.scores.highest := by
    intro outcomes
    refine ⟨min_le_weightAfter _ _ _, weightAfter_le hdecay ?_ ?_ ?_⟩
    · exact (le_max_left _ _).trans (le_max_left _ _)
    · exact (le_max_right _ _).trans (le_max_left _ _)
    · intro amount hamount
      obtain ⟨o, -, rfl⟩ := List.mem_map.1 hamount
      exact (s.scores.of_le_highest o).trans (le_max_right _ _)
  rcases List.mem_append.1 hx with hx | hx
  · obtain ⟨d, -, rfl⟩ := List.mem_map.1 hx
    exact hbounds _
  · obtain ⟨r, -, rfl⟩ := List.mem_map.1 hx
    exact hbounds _

end Roulette

/-! ## 2. A wheel among the schemes -/

namespace Scheme

variable {K X π : Type} [Field K] [LinearOrder K] [Elementary K] [Solution K X]

/-- A wheel takes a report as it does on its own. -/
theorem answer_report_roulette (p : Policy K π) {s : Roulette K} {r : Report X}
    (h : s.coupling.allows r.pair.1 r.pair.2 = true) (g : Generator) (lines : Array (Line K)) :
    result ((selector p).answer (.report r)) ⟨.roulette s, g, lines⟩
      = (.ok (), ⟨.roulette (s.taking r.pair r.outcome), g, lines⟩) := by
  show result (update p r.candidate (Pair.ofNat r.pair) r.outcome) _ = _
  rw [update, result_bind, result_own]
  simp only
  rw [result_exchange, s.update_ofNat h]

/-- A selection leaves a wheel as it is. -/
theorem answer_select_roulette (p : Policy K π) {s : Roulette K} {best current : X}
    {dr : Nat × Nat} {g g' : Generator} (h : s.draw g = (.ok dr, g')) (lines : Array (Line K)) :
    result ((selector p).answer (.select best current)) ⟨.roulette s, g, lines⟩
      = (.ok (), ⟨.roulette s, g', lines⟩) := by
  have hselect : result (select p current) ⟨.roulette s, g, lines⟩
      = (.ok (Pair.ofNat dr), ⟨.roulette s, g', lines⟩) := by
    rw [select, result_bind, result_own]
    simp only
    rw [result_map, result_sample, h]
    rfl
  show result (select p current >>= fun _ => pure ()) _ = _
  rw [result_bind, hselect]
  rfl

variable [IsStrictOrderedRing K]

/-- **A wheel that can draw** answers all legal requests, and was told their reports then. -/
theorem serve_roulette (p : Policy K π) {s : Roulette K} (hturning : s.Turning)
    (husable : s.coupling.Usable) {requests : List (Request X)}
    (hlegal : ∀ request ∈ requests, request.Legal s.coupling) (g : Generator)
    (lines : Array (Line K)) :
    ∃ g' lines', result ((selector p).serve requests) ⟨.roulette (s.told ([] : List (Report X))),
        g, lines⟩ = (.ok (), ⟨.roulette (s.told (reports requests)), g', lines'⟩) := by
  refine Selector.serve_ok (fun done => Scheme.roulette (s.told (reports done)))
    (fun done request hrequest g lines => ?_) hlegal [] g lines
  cases request with
  | select best current =>
    obtain ⟨dr, g', hdraw⟩ := Roulette.draw_ok (hturning.told (reports done)) husable g
    refine ⟨g', lines, ?_⟩
    rw [answer_select_roulette p hdraw, reports_append]
    show _ = (_, (⟨.roulette (s.told (reports done ++ [])), g', lines⟩ : Setting K (Scheme K π)))
    rw [List.append_nil]
  | report r =>
    refine ⟨g, lines, ?_⟩
    rw [answer_report_roulette p (s := s.told (reports done)) hrequest, reports_append,
      s.taking_told]
    rfl

end Scheme

/-! ## 3. New wheels -/

/-- Score lists that agree in the first four places score alike. -/
theorem Scores.of_eq_of_take {K : Type} [Scalar K] {xs ys : List K} {s t : Scores K}
    (hs : Scores.ofList xs = .ok s) (ht : Scores.ofList ys = .ok t) (h : xs.take 4 = ys.take 4) :
    s.of = t.of := by
  funext o
  have hlt : o.index < 4 := by
    cases o <;> decide
  have hplace : xs[o.index]? = ys[o.index]? := by
    rw [← List.getElem?_take_of_lt hlt, h, List.getElem?_take_of_lt hlt]
  rw [Scores.getElem?_of_ofList hs, Scores.getElem?_of_ofList ht] at hplace
  exact Option.some.inj hplace

section Wheels

variable {K X π : Type} [Field K] [LinearOrder K] [IsStrictOrderedRing K] [Elementary K]
  [Solution K X]

variable {scores : List K} {decay floor : K} {numDestroy numRepair : Nat}
  {coupling? : Option Coupling} {s : Roulette K}

omit [IsStrictOrderedRing K] [Elementary K] [Solution K X] in
/-- The weights after some reports, from what the wheel was made from. -/
theorem Roulette.New.weights_told (h : New scores decay floor numDestroy numRepair s)
    (reports : List (Report X)) :
    (s.told reports).destroyWeights = ((List.range numDestroy).map fun d =>
      weightAfter decay floor ((outcomesOf Prod.fst d reports).map s.scores.of)) ∧
    (s.told reports).repairWeights = (List.range numRepair).map fun r =>
      weightAfter decay floor ((outcomesOf Prod.snd r reports).map s.scores.of) := by
  rw [← h.destroy_eq, ← h.repair_eq, ← h.decay_eq, ← h.floor_eq]
  exact ⟨rfl, rfl⟩

/-- A new wheel answers all legal requests. -/
theorem Roulette.serve_made (made : make scores decay numDestroy numRepair coupling? floor = .ok s)
    (p : Policy K π) {requests : List (Request X)}
    (hlegal : ∀ request ∈ requests, request.Legal s.coupling) (g : Generator)
    (lines : Array (Line K)) :
    ∃ g' lines', result ((Scheme.selector p).serve requests) ⟨.roulette s, g, lines⟩
      = (.ok (), ⟨.roulette (s.told (reports requests)), g', lines'⟩) := by
  obtain ⟨hturning, husable, -, -⟩ := turning_of_make made
  have hserved := Scheme.serve_roulette p hturning husable hlegal g lines
  rwa [(new_of_make made).told_nil] at hserved

/-- **The weights of a roulette wheel depend on the outcomes of each operator alone.**  Whatever
selections and legal reports a new wheel is asked for, it answers them all.  The weight of each
operator is then the fold of the scores of its own outcomes.  It is never below both one and the
floor, nor above all of one, the floor and the largest of the four scores that count.

Requests with the same outcomes for each operator therefore lead to the same weights, also in two
wheels whose scores differ beyond the fourth.  And in whatever state a wheel is, two legal reports
without a common operator commute. -/
theorem roulette_weights_own_outcomes
    (made : Roulette.make scores decay numDestroy numRepair coupling? floor = .ok s)
    (p : Policy K π) :
    (∀ o : Outcome, scores[o.index]? = some (s.scores.of o)) ∧
    (∀ requests : List (Request X), (∀ request ∈ requests, request.Legal s.coupling) →
      ∀ g lines, ∃ t g' lines',
        result ((Scheme.selector p).serve requests) ⟨.roulette s, g, lines⟩
          = (.ok (), ⟨.roulette t, g', lines'⟩) ∧
        t.destroyWeights = ((List.range numDestroy).map fun d =>
          Roulette.weightAfter decay floor
            ((outcomesOf Prod.fst d (reports requests)).map s.scores.of)) ∧
        t.repairWeights = ((List.range numRepair).map fun r =>
          Roulette.weightAfter decay floor
            ((outcomesOf Prod.snd r (reports requests)).map s.scores.of)) ∧
        ∀ x ∈ t.weights, min 1 floor ≤ x ∧ x ≤ max (max 1 floor) s.scores.highest) ∧
    (∀ (scores' : List K) (s' : Roulette K),
      Roulette.make scores' decay numDestroy numRepair coupling? floor = .ok s' →
      scores.take 4 = scores'.take 4 → ∀ requests requests' : List (Request X),
      (∀ request ∈ requests, request.Legal s.coupling) →
      (∀ request ∈ requests', request.Legal s'.coupling) →
      (∀ d, outcomesOf Prod.fst d (reports requests)
        = outcomesOf Prod.fst d (reports requests')) →
      (∀ r, outcomesOf Prod.snd r (reports requests)
        = outcomesOf Prod.snd r (reports requests')) →
      ∀ g lines g' lines', ∃ t t' h said h' said',
        result ((Scheme.selector p).serve requests) ⟨.roulette s, g, lines⟩
          = (.ok (), ⟨.roulette t, h, said⟩) ∧
        result ((Scheme.selector p).serve requests') ⟨.roulette s', g', lines'⟩
          = (.ok (), ⟨.roulette t', h', said'⟩) ∧
        t.destroyWeights = t'.destroyWeights ∧ t.repairWeights = t'.repairWeights) ∧
    ∀ (u : Roulette K) (a b : Report X), u.coupling.allows a.pair.1 a.pair.2 = true →
      u.coupling.allows b.pair.1 b.pair.2 = true → a.pair.1 ≠ b.pair.1 → a.pair.2 ≠ b.pair.2 →
      ∀ g lines, result ((Scheme.selector p).serve [.report a, .report b]) ⟨.roulette u, g, lines⟩
        = result ((Scheme.selector p).serve [.report b, .report a]) ⟨.roulette u, g, lines⟩ := by
  have hnew := Roulette.new_of_make made
  refine ⟨Scores.getElem?_of_ofList hnew.scores_eq, fun requests hlegal g lines => ?_, ?_, ?_⟩
  · obtain ⟨g', lines', hserved⟩ := Roulette.serve_made made p hlegal g lines
    obtain ⟨hd, hr⟩ := hnew.weights_told (reports requests)
    refine ⟨_, g', lines', hserved, hd, hr, fun x hx => ?_⟩
    rw [← hnew.floor_eq]
    exact Roulette.mem_weights_told (by rw [hnew.decay_eq]; exact hnew.decay_mem) _ hx
  · intro scores' s' made' htake requests requests' hlegal hlegal' hdestroy hrepair g lines g' lines'
    obtain ⟨h, said, hserved⟩ := Roulette.serve_made made p hlegal g lines
    obtain ⟨h', said', hserved'⟩ := Roulette.serve_made made' p hlegal' g' lines'
    have hnew' := Roulette.new_of_make made'
    obtain ⟨hd, hr⟩ := hnew.weights_told (reports requests)
    obtain ⟨hd', hr'⟩ := hnew'.weights_told (reports requests')
    have hscores := Scores.of_eq_of_take hnew.scores_eq hnew'.scores_eq htake
    refine ⟨_, _, h, said, h', said', hserved, hserved', ?_, ?_⟩
    · rw [hd, hd', hscores]
      simp only [hdestroy]
    · rw [hr, hr', hscores]
      simp only [hrepair]
  · intro u a b ha hb hdestroy hrepair g lines
    have hboth : ∀ c d : Report X, u.coupling.allows c.pair.1 c.pair.2 = true →
        u.coupling.allows d.pair.1 d.pair.2 = true →
        result ((Scheme.selector p).serve [.report c, .report d]) ⟨.roulette u, g, lines⟩
          = (.ok (), ⟨.roulette ((u.taking c.pair c.outcome).taking d.pair d.outcome), g,
              lines⟩) := by
      intro c d hc hd
      rw [Selector.serve, result_bind, Scheme.answer_report_roulette p hc]
      simp only
      rw [Selector.serve, result_bind,
        Scheme.answer_report_roulette p (s := u.taking c.pair c.outcome) hd]
      rfl
    rw [hboth a b ha hb, hboth b a hb ha, u.taking_comm hdestroy hrepair]

end Wheels

namespace Countdown

/-- A new wheel for two operators on either side, all of whose pairs are legal. -/
noncomputable def wheelFour (surplus : List ℝ) : Roulette ℝ where
  scores := ⟨3, 2, 1, 0, surplus⟩
  decay := 1 / 2
  floor := 3 / 4
  coupling := Coupling.all 2 2
  destroyWeights := [1, 1]
  repairWeights := [1, 1]

theorem make_wheelFour {surplus : List ℝ} (h : ∀ x ∈ surplus, 0 ≤ x) :
    Roulette.make (3 :: 2 :: 1 :: 0 :: surplus) (1 / 2) 2 2 none (3 / 4)
      = .ok (wheelFour surplus) := by
  have hscores : Scores.ofList (3 :: 2 :: 1 :: 0 :: surplus) = .ok ⟨3, 2, 1, 0, surplus⟩ := by
    simpa [Scores.ofList] using h
  have hcoupling : ∃ u, (Coupling.forScheme 2 2 none : Except (Fault ℝ) _)
      = .ok ⟨Coupling.all 2 2, u⟩ := ⟨⟨by decide, by decide, by decide⟩, rfl⟩
  obtain ⟨u, hu⟩ := hcoupling
  rw [Roulette.make, hu]
  simp only [Checks.bind_ok_iff, Checks.guard_ok_iff, Checks.pure_ok_iff]
  exact ⟨_, rfl, _, hscores, by norm_num [Scalar.within], by norm_num, rfl⟩

/-- Three reports with a selection between them ... -/
noncomputable def interleaved : List (Request (Level ℝ)) :=
  [.report ⟨⟨0⟩, (0, 0), .best⟩, .select ⟨0⟩ ⟨1⟩, .report ⟨⟨2⟩, (1, 1), .reject⟩,
    .report ⟨⟨1⟩, (0, 1), .accept⟩]

/-- ... and in another order, which is the same for every single operator. -/
noncomputable def mingled : List (Request (Level ℝ)) :=
  [.report ⟨⟨2⟩, (1, 1), .reject⟩, .report ⟨⟨0⟩, (0, 0), .best⟩, .report ⟨⟨1⟩, (0, 1), .accept⟩]

end Countdown

open Countdown in
/-- Two wheels that differ in a fifth score come to the same weights by requests in different
order.  The smallest weights are those that the floor keeps up. -/
theorem roulette_weights_mingled :
    Roulette.make [3, 2, 1, 0, 9] (1 / 2 : ℝ) 2 2 none (3 / 4) = .ok (wheelFour [9]) ∧
    (∀ request ∈ interleaved, request.Legal (Coupling.all 2 2)) ∧
    (∀ request ∈ mingled, request.Legal (Coupling.all 2 2)) ∧
    ∃ t t' h said h' said',
      result ((Scheme.selector EpsilonGreedy.policy).serve interleaved)
          ⟨.roulette (wheelFour [9]), ⟨0, 1⟩, #[]⟩ = (.ok (), ⟨.roulette t, h, said⟩) ∧
      result ((Scheme.selector EpsilonGreedy.policy).serve mingled)
          ⟨.roulette (wheelFour []), ⟨0, 1⟩, #[]⟩ = (.ok (), ⟨.roulette t', h', said'⟩) ∧
      t.destroyWeights = [3 / 2, 3 / 4] ∧ t.repairWeights = [2, 7 / 8] ∧
      t'.destroyWeights = t.destroyWeights ∧ t'.repairWeights = t.repairWeights ∧
      ∀ x ∈ t.weights, 3 / 4 ≤ x ∧ x ≤ 3 := by
  have hmade : Roulette.make [3, 2, 1, 0, 9] (1 / 2 : ℝ) 2 2 none (3 / 4)
      = .ok (wheelFour [9]) := make_wheelFour (by simp)
  have hlegal : ∀ request ∈ interleaved, request.Legal (Coupling.all 2 2) := by
    simp only [interleaved, List.forall_mem_cons]
    exact ⟨rfl, True.intro, rfl, rfl, fun _ h => absurd h List.not_mem_nil⟩
  have hlegal' : ∀ request ∈ mingled, request.Legal (Coupling.all 2 2) := by
    simp only [mingled, List.forall_mem_cons]
    exact ⟨rfl, rfl, rfl, fun _ h => absurd h List.not_mem_nil⟩
  obtain ⟨-, hweights, hsame, -⟩ :=
    roulette_weights_own_outcomes (X := Level ℝ) hmade EpsilonGreedy.policy
  obtain ⟨t, h, said, hserved, hd, hr, hbounds⟩ := hweights interleaved hlegal ⟨0, 1⟩ #[]
  have hmade' : Roulette.make [3, 2, 1, 0] (1 / 2 : ℝ) 2 2 none (3 / 4)
      = .ok (wheelFour []) := make_wheelFour (by simp)
  have hdestroy : ∀ d, outcomesOf Prod.fst d (reports interleaved)
      = outcomesOf Prod.fst d (reports mingled)
    | 0 => rfl
    | 1 => rfl
    | _ + 2 => rfl
  have hrepair : ∀ r, outcomesOf Prod.snd r (reports interleaved)
      = outcomesOf Prod.snd r (reports mingled)
    | 0 => rfl
    | 1 => rfl
    | _ + 2 => rfl
  obtain ⟨t₁, t', h₁, said₁, h', said', hserved₁, hserved', hd', hr'⟩ :=
    hsame _ _ hmade' rfl interleaved mingled hlegal hlegal' hdestroy hrepair
      ⟨0, 1⟩ #[] ⟨0, 1⟩ #[]
  rw [hserved] at hserved₁
  cases hserved₁
  refine ⟨hmade, hlegal, hlegal', t, t', h, said, h', said', hserved, hserved', ?_, ?_, hd'.symm,
    hr'.symm, fun x hx => ?_⟩
  · have hamounts : t.destroyWeights = [Roulette.weightAfter (1 / 2) (3 / 4) [3, 1],
        Roulette.weightAfter (1 / 2) (3 / 4) [0]] := hd
    norm_num [hamounts, Roulette.weightAfter, max_def]
  · have hamounts : t.repairWeights = [Roulette.weightAfter (1 / 2) (3 / 4) [3],
        Roulette.weightAfter (1 / 2) (3 / 4) [0, 1]] := hr
    norm_num [hamounts, Roulette.weightAfter, max_def]
  · obtain ⟨hlow, hhigh⟩ := hbounds x hx
    norm_num [wheelFour, Scores.highest] at hlow hhigh
    exact ⟨hlow, hhigh⟩

end LargeNeighbourhood
