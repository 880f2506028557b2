/-
# Segments

A segmented wheel counts its selections.  A report belongs to the segment that is open when it
comes: the number of selections before it, divided by the length of a segment.  Every report has its
segment, and only one (`flatMap_segment`).

After some requests the weights of a segmented wheel are the fold of the sums of its closed
segments, and its own sums are those of the segment that is open (`Segmented.asked`).  A report adds
to the open segment; a selection opens the next one when its number is a multiple of the length,
before it draws.  The first selection has the number one, so a wheel that is asked for a pair and
told of it in turn has one report less in its first segment than in each later one
(`segment_of_alternates`).
-/
import Mathlib
import LargeNeighbourhood.Proofs.Selection.Mixing

namespace LargeNeighbourhood

open Act

/-! ## 1. The segment of a report -/

section Requests

variable {X : Type}

/-- The reports among some requests, each with the number of selections before it, if there were
`n` before all of them. -/
def dated (n : Nat) : List (Request X) → List (Report X × Nat)
  | [] => []
  | .select _ _ :: rest => dated (n + 1) rest
  | .report r :: rest => (r, n) :: dated n rest

theorem dated_append (n : Nat) (xs ys : List (Request X)) :
    dated n (xs ++ ys) = dated n xs ++ dated (n + selections xs) ys := by
  induction xs generalizing n with
  | nil => rfl
  | cons request rest ih =>
    cases request with
    | select best current =>
      show dated (n + 1) (rest ++ ys) = _
      rw [ih, selections_select, Nat.add_right_comm n 1]
      rfl
    | report r =>
      show (r, n) :: dated n (rest ++ ys) = _
      rw [ih, selections_report]
      rfl

theorem le_of_mem_dated {n : Nat} {requests : List (Request X)} {e : Report X × Nat}
    (h : e ∈ dated n requests) : e.2 ≤ n + selections requests := by
  induction requests generalizing n with
  | nil => exact absurd h List.not_mem_nil
  | cons request rest ih =>
    cases request with
    | select best current =>
      have hle : e.2 ≤ n + 1 + selections rest := ih h
      rw [selections_select]
      omega
    | report r =>
      rw [selections_report]
      rcases List.mem_cons.1 h with rfl | h
      · exact Nat.le_add_right _ _
      · exact ih h

/-- The reports of one segment, in order. -/
def segment (length j : Nat) (requests : List (Request X)) : List (Report X) :=
  ((dated 0 requests).filter fun e => e.2 / length = j).map Prod.fst

theorem segment_append (length j : Nat) (xs ys : List (Request X)) :
    segment length j (xs ++ ys) = segment length j xs ++
      ((dated (selections xs) ys).filter fun e => e.2 / length = j).map Prod.fst := by
  unfold segment
  rw [dated_append, List.filter_append, List.map_append, Nat.zero_add]

/-- A report joins the segment that is open. -/
theorem segment_snoc_report (length j : Nat) (done : List (Request X)) (r : Report X) :
    segment length j (done ++ [.report r]) =
      segment length j done ++ if selections done / length = j then [r] else [] := by
  rw [segment_append]
  congr 1
  by_cases h : selections done / length = j
  · rw [if_pos h]
    simp [dated, h]
  · rw [if_neg h]
    simp [dated, h]

theorem segment_snoc_select (length j : Nat) (done : List (Request X)) (best current : X) :
    segment length j (done ++ [.select best current]) = segment length j done := by
  rw [segment_append]
  exact List.append_nil _

/-- A segment that was not opened yet is empty. -/
theorem segment_eq_nil {length j : Nat} {requests : List (Request X)}
    (h : selections requests / length < j) : segment length j requests = [] := by
  unfold segment
  rw [List.map_eq_nil_iff, List.filter_eq_nil_iff]
  intro e he
  have hle := Nat.div_le_div_right (c := length) (le_of_mem_dated he)
  rw [Nat.zero_add] at hle
  rw [decide_eq_true_eq]
  omega

@[simp] theorem selections_snoc_report (done : List (Request X)) (r : Report X) :
    selections (done ++ [.report r]) = selections done := by
  rw [selections_append]
  rfl

@[simp] theorem selections_snoc_select (done : List (Request X)) (best current : X) :
    selections (done ++ [.select best current]) = selections done + 1 := by
  rw [selections_append]
  rfl

/-- **The segments are all the reports, one after the other.** -/
theorem flatMap_segment (length : Nat) (requests : List (Request X)) :
    (List.range (selections requests / length + 1)).flatMap (fun j => segment length j requests)
      = reports requests := by
  induction requests using List.reverseRecOn with
  | nil =>
    rw [show selections ([] : List (Request X)) = 0 from rfl, Nat.zero_div]
    rfl
  | append_singleton done request ih =>
    cases request with
    | select best current =>
      have hsegments : (fun j => segment length j (done ++ [.select best current]))
          = fun j => segment length j done :=
        funext fun j => segment_snoc_select ..
      rw [hsegments, selections_snoc_select, reports_append, ← ih, Nat.succ_div]
      split
      · rw [List.range_succ, List.flatMap_append, List.flatMap_singleton,
          segment_eq_nil (Nat.lt_succ_self _)]
        rfl
      · exact (List.append_nil _).symm
    | report r =>
      rw [selections_snoc_report, reports_append, ← ih, List.range_succ, List.flatMap_append,
        List.flatMap_append, List.flatMap_singleton, List.flatMap_singleton, segment_snoc_report,
        if_pos rfl, List.append_assoc]
      congr 1
      refine List.flatMap_congr fun j hj => ?_
      rw [segment_snoc_report, if_neg (Nat.ne_of_gt (List.mem_range.1 hj)), List.append_nil]

/-! ## 2. Asked and told in turn -/

/-- Selections and reports take turns; a selection comes first. -/
inductive Alternates : List (Request X) → Prop
  | nil : Alternates []
  | select (best current : X) : Alternates [.select best current]
  | turn (best current : X) (r : Report X) {rest : List (Request X)} (h : Alternates rest) :
      Alternates (.select best current :: .report r :: rest)

/-- Each report comes after one more selection than the one before it. -/
theorem Alternates.dated_eq {requests : List (Request X)} (h : Alternates requests) (n : Nat) :
    dated n requests = (reports requests).zipIdx (n + 1) := by
  induction h generalizing n with
  | nil => rfl
  | select best current => rfl
  | turn best current r h ih =>
    show (r, n + 1) :: dated (n + 1) _ = (r :: reports _).zipIdx (n + 1)
    rw [ih, List.zipIdx_cons]

theorem Alternates.selections_le {requests : List (Request X)} (h : Alternates requests) :
    selections requests ≤ (reports requests).length + 1 := by
  induction h with
  | nil => exact Nat.zero_le _
  | select best current => exact Nat.le_refl _
  | turn best current r h ih =>
    rw [selections_select, selections_report]
    exact Nat.succ_le_succ ih

/-- The entries of a list whose numbers lie in an interval. -/
theorem filter_zipIdx_interval {α : Type} (xs : List α) (k low high : Nat) :
    ((xs.zipIdx k).filter fun e => low ≤ e.2 ∧ e.2 < high).map Prod.fst
      = (xs.take (high - k)).drop (low - k) := by
  induction xs generalizing k with
  | nil => simp
  | cons x xs ih =>
    rw [List.zipIdx_cons, List.filter_cons]
    by_cases hhigh : k < high
    · have hsucc : high - k = high - (k + 1) + 1 := by omega
      by_cases hlow : low ≤ k
      · rw [if_pos (by simp [hlow, hhigh]), List.map_cons, ih, hsucc, List.take_succ_cons,
          Nat.sub_eq_zero_of_le hlow, Nat.sub_eq_zero_of_le (by omega : low ≤ k + 1)]
        rfl
      · have hlow' : low - k = low - (k + 1) + 1 := by omega
        rw [if_neg (by simp [hlow]), ih, hsucc, List.take_succ_cons, hlow', List.drop_succ_cons]
    · rw [if_neg (by simp [hhigh]), ih, Nat.sub_eq_zero_of_le (by omega : high ≤ k + 1),
        Nat.sub_eq_zero_of_le (by omega : high ≤ k)]
      simp

/-- **Asked and told in turn,** the reports of a segment are an interval of all reports: it ends
one report before a multiple of the length. -/
theorem segment_of_alternates {length : Nat} (hlength : 0 < length) {requests : List (Request X)}
    (h : Alternates requests) (j : Nat) :
    segment length j requests
      = ((reports requests).take ((j + 1) * length - 1)).drop (j * length - 1) := by
  rw [segment, h.dated_eq, ← filter_zipIdx_interval]
  refine congrArg (List.map Prod.fst) (List.filter_congr fun e _ => ?_)
  rw [decide_eq_decide, Nat.div_eq_iff hlength]
  have hsucc : (j + 1) * length = j * length + length := Nat.succ_mul j length
  omega

/-- The first segment is one report short, the others are full. -/
theorem length_segment_of_alternates {length : Nat} (hlength : 0 < length)
    {requests : List (Request X)} (h : Alternates requests) {j : Nat}
    (hclosed : (j + 1) * length ≤ selections requests) :
    (segment length j requests).length = if j = 0 then length - 1 else length := by
  have hreports := h.selections_le
  have hsucc : (j + 1) * length = j * length + length := Nat.succ_mul j length
  rw [segment_of_alternates hlength h, List.length_drop, List.length_take]
  split
  · rename_i hj
    rw [hj, Nat.zero_mul, Nat.zero_add] at hsucc
    rw [hj, Nat.zero_mul, Nat.zero_sub, hsucc]
    rw [hj] at hclosed
    omega
  · rename_i hj
    have hpos : length ≤ j * length := Nat.le_mul_of_pos_left _ (Nat.pos_of_ne_zero hj)
    omega

end Requests

/-! ## 3. The wheel after some requests -/

/-- What the reports of one segment are worth to an operator. -/
def segmentScore {K X : Type} [Field K] (scores : Scores K) (length : Nat)
    (side : Nat × Nat → Nat) (i : Nat) (requests : List (Request X)) (j : Nat) : K :=
  ((outcomesOf side i (segment length j requests)).map scores.of).sum

section Scores

variable {K X : Type} [Field K] {scores : Scores K} {length j : Nat}

/-- A report adds its score to the open segment of the operators that it names. -/
theorem segmentScore_snoc_report (side : Nat × Nat → Nat) (i : Nat) (done : List (Request X))
    (r : Report X) :
    segmentScore scores length side i (done ++ [.report r]) j =
      segmentScore scores length side i done j +
        if selections done / length = j ∧ i = side r.pair then scores.of r.outcome else 0 := by
  unfold segmentScore
  rw [segment_snoc_report]
  by_cases hopen : selections done / length = j
  · rw [if_pos hopen, outcomesOf_append, outcomesOf_singleton, List.map_append, List.sum_append]
    by_cases hi : i = side r.pair
    · rw [if_pos hi, if_pos ⟨hopen, hi⟩, List.map_singleton, List.sum_singleton]
    · rw [if_neg hi, if_neg fun h => hi h.2, List.map_nil, List.sum_nil]
  · rw [if_neg hopen, if_neg fun h => hopen h.1, List.append_nil, add_zero]

theorem segmentScore_snoc_select (side : Nat × Nat → Nat) (i : Nat) (done : List (Request X))
    (best current : X) :
    segmentScore scores length side i (done ++ [.select best current]) j =
      segmentScore scores length side i done j := by
  unfold segmentScore
  rw [segment_snoc_select]

theorem segmentScore_eq_zero (side : Nat × Nat → Nat) (i : Nat) {requests : List (Request X)}
    (h : selections requests / length < j) :
    segmentScore scores length side i requests j = 0 := by
  unfold segmentScore
  rw [segment_eq_nil h]
  rfl

end Scores

namespace Segmented

variable {K X : Type} [Field K] [LinearOrder K]

/-- The weight of an operator: the sums of the closed segments were mixed into it. -/
def closedWeight (s : Segmented K) (side : Nat × Nat → Nat) (requests : List (Request X))
    (i : Nat) : K :=
  Roulette.weightAfter s.wheel.decay s.wheel.floor
    ((List.range (selections requests / s.length)).map
      (segmentScore s.wheel.scores s.length side i requests))

/-- The sum of an operator in the open segment. -/
def openScore (s : Segmented K) (side : Nat × Nat → Nat) (requests : List (Request X))
    (i : Nat) : K :=
  segmentScore s.wheel.scores s.length side i requests (selections requests / s.length)

/-- The segmented wheel after some requests. -/
def asked (s : Segmented K) (requests : List (Request X)) : Segmented K :=
  { s with
    iteration := selections requests
    wheel := { s.wheel with
      destroyWeights := (List.range s.wheel.coupling.numDestroy).map
        (s.closedWeight Prod.fst requests)
      repairWeights := (List.range s.wheel.coupling.numRepair).map
        (s.closedWeight Prod.snd requests) }
    destroySums := (List.range s.wheel.coupling.numDestroy).map (s.openScore Prod.fst requests)
    repairSums := (List.range s.wheel.coupling.numRepair).map (s.openScore Prod.snd requests) }

/-- The segmented wheel after a report about a pair. -/
def taking (s : Segmented K) (dr : Nat × Nat) (o : Outcome) : Segmented K :=
  { s with
    destroySums := s.destroySums.modify dr.1 (· + s.wheel.scores.of o)
    repairSums := s.repairSums.modify dr.2 (· + s.wheel.scores.of o) }

theorem update_ofNat (s : Segmented K) {dr : Nat × Nat}
    (h : s.wheel.coupling.allows dr.1 dr.2 = true) (o : Outcome) :
    s.update (Pair.ofNat dr) o = .ok (s.taking dr o) := by
  rw [update, Coupling.requireLegal_ofNat h]
  rfl

variable (s : Segmented K) (done : List (Request X))

/-- A report leaves the closed segments as they are ... -/
theorem closedWeight_snoc_report (side : Nat × Nat → Nat) (r : Report X) :
    s.closedWeight side (done ++ [.report r]) = s.closedWeight side done := by
  funext i
  unfold closedWeight
  rw [selections_snoc_report]
  refine congrArg _ (List.map_congr_left fun j hj => ?_)
  rw [segmentScore_snoc_report,
    if_neg fun h => Nat.ne_of_gt (List.mem_range.1 hj) h.1, add_zero]

/-- ... and goes to the open one. -/
theorem openScore_snoc_report (side : Nat × Nat → Nat) (r : Report X) (i : Nat) :
    s.openScore side (done ++ [.report r]) i =
      if i = side r.pair then s.openScore side done i + s.wheel.scores.of r.outcome
      else s.openScore side done i := by
  unfold openScore
  rw [selections_snoc_report, segmentScore_snoc_report]
  by_cases hi : i = side r.pair
  · rw [if_pos hi, if_pos ⟨rfl, hi⟩]
  · rw [if_neg hi, if_neg fun h => hi h.2, add_zero]

/-- One more report takes a wheel to what belongs to one more report. -/
theorem taking_asked (r : Report X) :
    (s.asked done).taking r.pair r.outcome = s.asked (done ++ [.report r]) := by
  have hsums : ∀ (side : Nat × Nat → Nat) (n : Nat),
      ((List.range n).map (s.openScore side done)).modify (side r.pair)
          (· + s.wheel.scores.of r.outcome) =
        (List.range n).map (s.openScore side (done ++ [.report r])) := by
    intro side n
    rw [map_range_modify]
    exact List.map_congr_left fun i _ => (s.openScore_snoc_report done side r i).symm
  rw [asked, asked, ← hsums Prod.fst, ← hsums Prod.snd, selections_snoc_report,
    closedWeight_snoc_report, closedWeight_snoc_report]
  rfl

/-- A selection that ends no segment changes no weight and no sum ... -/
theorem snoc_select_of_not_dvd (side : Nat × Nat → Nat) (best current : X)
    (h : ¬s.length ∣ selections done + 1) :
    s.closedWeight side (done ++ [.select best current]) = s.closedWeight side done ∧
      s.openScore side (done ++ [.select best current]) = s.openScore side done := by
  have hdiv : (selections done + 1) / s.length = selections done / s.length := by
    rw [Nat.succ_div, if_neg h]
    rfl
  constructor
  · funext i
    unfold closedWeight
    rw [selections_snoc_select, hdiv]
    exact congrArg _ (List.map_congr_left fun j _ => segmentScore_snoc_select ..)
  · funext i
    unfold openScore
    rw [selections_snoc_select, hdiv, segmentScore_snoc_select]

/-- ... and one that ends a segment mixes the sums into the weights and begins at zero. -/
theorem snoc_select_of_dvd (side : Nat × Nat → Nat) (best current : X)
    (h : s.length ∣ selections done + 1) (i : Nat) :
    s.closedWeight side (done ++ [.select best current]) i
        = s.wheel.mix (s.openScore side done i) (s.closedWeight side done i) ∧
      s.openScore side (done ++ [.select best current]) i = 0 := by
  have hdiv : (selections done + 1) / s.length = selections done / s.length + 1 := by
    rw [Nat.succ_div, if_pos h]
  have hscores : segmentScore s.wheel.scores s.length side i (done ++ [.select best current])
      = segmentScore s.wheel.scores s.length side i done :=
    funext fun j => segmentScore_snoc_select ..
  constructor
  · unfold closedWeight openScore
    rw [selections_snoc_select, hdiv, hscores, List.range_succ, List.map_append,
      List.map_singleton, Roulette.mix_weightAfter]
  · unfold openScore
    rw [selections_snoc_select, hdiv, hscores, segmentScore_eq_zero _ _ (Nat.lt_succ_self _)]

/-- One more selection takes a wheel to what belongs to one more selection. -/
theorem advance_asked (best current : X) :
    (s.asked done).advance = s.asked (done ++ [.select best current]) := by
  have hends : (s.asked done).endsSegment (selections done + 1) = true ↔
      s.length ∣ selections done + 1 := by
    rw [endsSegment, decide_eq_true_eq]
    exact Nat.dvd_iff_mod_eq_zero.symm
  show (if (s.asked done).endsSegment (selections done + 1) = true then
    closeSegment { s.asked done with iteration := selections done + 1 }
    else { s.asked done with iteration := selections done + 1 }) = _
  by_cases h : s.length ∣ selections done + 1
  · have hweights : ∀ (side : Nat × Nat → Nat) (n : Nat),
        List.zipWith s.wheel.mix ((List.range n).map (s.openScore side done))
            ((List.range n).map (s.closedWeight side done))
          = (List.range n).map (s.closedWeight side (done ++ [.select best current])) := by
      intro side n
      rw [List.zipWith_map, List.zipWith_self]
      exact List.map_congr_left fun i _ => (s.snoc_select_of_dvd done side best current h i).1.symm
    have hsums : ∀ (side : Nat × Nat → Nat) (n : Nat),
        ((List.range n).map (s.closedWeight side done)).map (fun _ => (0 : K))
          = (List.range n).map (s.openScore side (done ++ [.select best current])) := by
      intro side n
      rw [List.map_map]
      exact List.map_congr_left fun i _ => (s.snoc_select_of_dvd done side best current h i).2.symm
    rw [if_pos (hends.2 h)]
    conv_rhs => rw [asked, ← hweights Prod.fst, ← hweights Prod.snd, ← hsums Prod.fst,
      ← hsums Prod.snd, selections_snoc_select]
    rfl
  · obtain ⟨hd, hd'⟩ := s.snoc_select_of_not_dvd done Prod.fst best current h
    obtain ⟨hr, hr'⟩ := s.snoc_select_of_not_dvd done Prod.snd best current h
    rw [if_neg fun hend => h (hends.1 hend)]
    conv_rhs => rw [asked, hd, hd', hr, hr', selections_snoc_select]
    rfl

/-- The wheel of a segmented wheel can draw at any time. -/
theorem turning_asked [IsStrictOrderedRing K] (h : s.wheel.Turning) (requests : List (Request X)) :
    (s.asked requests).wheel.Turning := by
  refine ⟨h.destroy_pos, h.floor_pos, by simp [asked], by simp [asked], ?_, ?_⟩
  · intro x hx
    obtain ⟨d, -, rfl⟩ := List.mem_map.1 hx
    exact Roulette.weightAfter_pos h.floor_pos _ _
  · intro x hx
    obtain ⟨r, -, rfl⟩ := List.mem_map.1 hx
    exact Roulette.weightAfter_pos h.floor_pos _ _

/-- A segmented wheel as it is made: a new wheel, a segment of some length, nothing counted. -/
structure New (scores : List K) (decay floor : K) (length : Int) (numDestroy numRepair : Nat)
    (s : Segmented K) : Prop where
  wheel : s.wheel.New scores decay floor numDestroy numRepair
  length_pos : 0 < s.length
  length_eq : (s.length : Int) = length
  iteration_eq : s.iteration = 0
  destroySums_eq : s.destroySums = List.replicate numDestroy 0
  repairSums_eq : s.repairSums = List.replicate numRepair 0

variable {s} {scores : List K} {decay floor : K} {length : Int} {numDestroy numRepair : Nat}
  {coupling? : Option Coupling} {verbose : Bool}

theorem new_of_make
    (h : make scores decay length numDestroy numRepair coupling? floor verbose = .ok s) :
    New scores decay floor length numDestroy numRepair s := by
  have hwheel := Roulette.new_of_make (make_wheel h)
  unfold make at h
  obtain ⟨wheel, hw, h⟩ := Checks.bind_ok_iff.1 h
  obtain ⟨hlength, h⟩ := Checks.guard_ok_iff.1 h
  cases Checks.pure_ok_iff.1 h
  exact ⟨hwheel, by show 0 < length.toNat; omega, by show (length.toNat : Int) = length; omega,
    rfl, rfl, rfl⟩

/-- A new wheel was asked nothing. -/
theorem New.asked_nil (h : New scores decay floor length numDestroy numRepair s) :
    s.asked ([] : List (Request X)) = s := by
  have hone : ∀ (side : Nat × Nat → Nat) (i : Nat),
      s.closedWeight side ([] : List (Request X)) i = 1 := by
    intro side i
    have hclosed : selections ([] : List (Request X)) / s.length = 0 := Nat.zero_div _
    rw [closedWeight, hclosed]
    rfl
  have hzero : ∀ (side : Nat × Nat → Nat) (i : Nat),
      s.openScore side ([] : List (Request X)) i = 0 := fun _ _ => rfl
  rw [asked, map_range_eq_replicate (hone Prod.fst), map_range_eq_replicate (hone Prod.snd),
    map_range_eq_replicate (hzero Prod.fst), map_range_eq_replicate (hzero Prod.snd),
    h.wheel.destroy_eq, h.wheel.repair_eq, ← h.wheel.destroyWeights_eq,
    ← h.wheel.repairWeights_eq, ← h.destroySums_eq, ← h.repairSums_eq]
  have hiteration : selections ([] : List (Request X)) = s.iteration := h.iteration_eq.symm
  rw [hiteration]

end Segmented

/-! ## 4. A segmented wheel among the schemes -/

namespace Scheme

variable {K X π : Type} [Field K] [LinearOrder K] [Elementary K] [Solution K X]

/-- A segmented wheel takes a report as it does on its own. -/
theorem answer_report_segmented (p : Policy K π) {s : Segmented K} {r : Report X}
    (h : s.wheel.coupling.allows r.pair.1 r.pair.2 = true) (g : Generator)
    (lines : Array (Line K)) :
    result ((selector p).answer (.report r)) ⟨.segmented s, g, lines⟩
      = (.ok (), ⟨.segmented (s.taking r.pair r.outcome), g, lines⟩) := by
  show result (update p r.candidate (Pair.ofNat r.pair) r.outcome) _ = _
  rw [update, result_bind, result_own]
  simp only
  rw [result_exchange, s.update_ofNat h]

/-- A selection of a segmented wheel counts, closes the segment that is due, and draws then. -/
theorem select_segmented (p : Policy K π) (s : Segmented K) (best current : X) (g : Generator)
    (lines : Array (Line K)) :
    ∃ said, result ((selector p).select best current) ⟨.segmented s, g, lines⟩ =
      ((s.advance.wheel.draw g : Except (Fault K) (Nat × Nat) × Generator).1.map Pair.ofNat,
        ⟨.segmented s.advance,
          (s.advance.wheel.draw g : Except (Fault K) (Nat × Nat) × Generator).2, said⟩) := by
  obtain ⟨said, hselect⟩ := Segmented.select_spec (⟨s, g, lines⟩ : Setting K (Segmented K))
  refine ⟨said, ?_⟩
  show result (select p current) _ = _
  rw [select, result_bind, result_own]
  simp only
  rw [result_map, result_on, hselect]

variable [IsStrictOrderedRing K]

/-- **A segmented wheel that can draw** answers all legal requests. -/
theorem serve_segmented (p : Policy K π) {s : Segmented K} (hturning : s.wheel.Turning)
    (husable : s.wheel.coupling.Usable) {requests : List (Request X)}
    (hlegal : ∀ request ∈ requests, request.Legal s.wheel.coupling) (g : Generator)
    (lines : Array (Line K)) :
    ∃ g' lines', result ((selector p).serve requests)
        ⟨.segmented (s.asked ([] : List (Request X))), g, lines⟩
      = (.ok (), ⟨.segmented (s.asked requests), g', lines'⟩) := by
  refine Selector.serve_ok (fun done => Scheme.segmented (s.asked done))
    (fun done request hrequest g lines => ?_) hlegal [] g lines
  cases request with
  | select best current =>
    obtain ⟨said, hselect⟩ := select_segmented p (s.asked done) best current g lines
    rw [s.advance_asked] at hselect
    obtain ⟨dr, g', hdraw⟩ := Roulette.draw_ok
      (s.turning_asked hturning (done ++ [.select best current])) husable g
    refine ⟨g', said, ?_⟩
    rw [Selector.answer, result_bind, hselect, hdraw]
    rfl
  | report r =>
    refine ⟨g, lines, ?_⟩
    rw [answer_report_segmented p (s := s.asked done) hrequest, s.taking_asked]

end Scheme

namespace Segmented

variable {K X : Type} [Field K] [LinearOrder K] {s : Segmented K} {scores : List K}
  {decay floor : K} {length : Int} {numDestroy numRepair : Nat}

theorem iteration_advance (u : Segmented K) : u.advance.iteration = u.iteration + 1 := by
  unfold advance
  simp only
  split <;> rfl

/-- Where a selection ends no segment, the wheel stays as it is. -/
theorem wheel_advance (u : Segmented K) (h : ¬u.length ∣ u.advance.iteration) :
    u.advance.wheel = u.wheel := by
  rw [u.iteration_advance, Nat.dvd_iff_mod_eq_zero] at h
  unfold advance
  simp only
  rw [if_neg (by simpa [endsSegment] using h)]

/-- The state after some requests, from what the wheel was made from. -/
theorem New.fields_asked (h : New scores decay floor length numDestroy numRepair s)
    (requests : List (Request X)) :
    (s.asked requests).iteration = selections requests ∧
    (s.asked requests).wheel.destroyWeights = ((List.range numDestroy).map fun d =>
      Roulette.weightAfter decay floor ((List.range (selections requests / s.length)).map
        (segmentScore s.wheel.scores s.length Prod.fst d requests))) ∧
    (s.asked requests).wheel.repairWeights = ((List.range numRepair).map fun r =>
      Roulette.weightAfter decay floor ((List.range (selections requests / s.length)).map
        (segmentScore s.wheel.scores s.length Prod.snd r requests))) ∧
    (s.asked requests).destroySums = ((List.range numDestroy).map fun d =>
      segmentScore s.wheel.scores s.length Prod.fst d requests
        (selections requests / s.length)) ∧
    (s.asked requests).repairSums = (List.range numRepair).map fun r =>
      segmentScore s.wheel.scores s.length Prod.snd r requests
        (selections requests / s.length) := by
  rw [← h.wheel.destroy_eq, ← h.wheel.repair_eq, ← h.wheel.decay_eq, ← h.wheel.floor_eq]
  exact ⟨rfl, rfl, rfl, rfl, rfl⟩

end Segmented

/-- **The weights of a segmented wheel are a fold over its segments.**  Whatever selections and
legal reports a new wheel is asked for, it answers them all.  It has counted the selections then;
the weight of each operator is the fold of what the reports of each closed segment were worth to
it; and its sum is what those of the open segment are worth.

In any state, a selection draws from the wheel that it leaves, which is another one only if the
length of a segment divides the number of the selection; and a report does not touch the wheel.

No report is lost and none is counted twice, since the segments in order are all the reports.
Where selections and reports take turns, the first segment that is closed is one report short, and
each later one is full. -/
theorem segmented_weights_fold_segments {K X π : Type} [Field K] [LinearOrder K]
    [IsStrictOrderedRing K] [Elementary K] [Solution K X] {s : Segmented K} {scores : List K}
    {decay floor : K} {length : Int} {numDestroy numRepair : Nat} {coupling? : Option Coupling}
    {verbose : Bool}
    (made : Segmented.make scores decay length numDestroy numRepair coupling? floor verbose = .ok s)
    (p : Policy K π) :
    (s.length : Int) = length ∧
    (∀ o : Outcome, scores[o.index]? = some (s.wheel.scores.of o)) ∧
    (∀ requests : List (Request X), (∀ request ∈ requests, request.Legal s.wheel.coupling) →
      ∀ g lines, ∃ t g' lines',
        result ((Scheme.selector p).serve requests) ⟨.segmented s, g, lines⟩
          = (.ok (), ⟨.segmented t, g', lines'⟩) ∧
        t.iteration = selections requests ∧
        t.wheel.destroyWeights = ((List.range numDestroy).map fun d =>
          Roulette.weightAfter decay floor ((List.range (selections requests / s.length)).map
            (segmentScore s.wheel.scores s.length Prod.fst d requests))) ∧
        t.wheel.repairWeights = ((List.range numRepair).map fun r =>
          Roulette.weightAfter decay floor ((List.range (selections requests / s.length)).map
            (segmentScore s.wheel.scores s.length Prod.snd r requests))) ∧
        t.destroySums = ((List.range numDestroy).map fun d =>
          segmentScore s.wheel.scores s.length Prod.fst d requests
            (selections requests / s.length)) ∧
        t.repairSums = (List.range numRepair).map fun r =>
          segmentScore s.wheel.scores s.length Prod.snd r requests
            (selections requests / s.length)) ∧
    (∀ (u : Segmented K) (best current : X) g lines, ∃ v said,
      result ((Scheme.selector p).select best current) ⟨.segmented u, g, lines⟩ =
        ((v.wheel.draw g : Except (Fault K) (Nat × Nat) × Generator).1.map Pair.ofNat,
          ⟨.segmented v, (v.wheel.draw g : Except (Fault K) (Nat × Nat) × Generator).2, said⟩) ∧
      v.iteration = u.iteration + 1 ∧ (¬u.length ∣ v.iteration → v.wheel = u.wheel)) ∧
    (∀ (u : Segmented K) (r : Report X), u.wheel.coupling.allows r.pair.1 r.pair.2 = true →
      ∀ g lines, ∃ v,
        result ((Scheme.selector p).update r.candidate (Pair.ofNat r.pair) r.outcome)
            ⟨.segmented u, g, lines⟩ = (.ok (), ⟨.segmented v, g, lines⟩) ∧
        v.iteration = u.iteration ∧ v.wheel = u.wheel) ∧
    (∀ requests : List (Request X),
      (List.range (selections requests / s.length + 1)).flatMap
        (fun j => segment s.length j requests) = reports requests) ∧
    ∀ requests : List (Request X), Alternates requests → ∀ j,
      segment s.length j requests
        = ((reports requests).take ((j + 1) * s.length - 1)).drop (j * s.length - 1) ∧
      ((j + 1) * s.length ≤ selections requests →
        (segment s.length j requests).length = if j = 0 then s.length - 1 else s.length) := by
  have hnew := Segmented.new_of_make made
  obtain ⟨hturning, husable⟩ := Segmented.turning_of_make made
  refine ⟨hnew.length_eq, Scores.getElem?_of_ofList hnew.wheel.scores_eq,
    fun requests hlegal g lines => ?_, fun u best current g lines => ?_, fun u r hr g lines => ?_,
    flatMap_segment s.length, fun requests h j => ?_⟩
  · obtain ⟨g', lines', hserved⟩ :=
      Scheme.serve_segmented p hturning.wheel husable hlegal g lines
    rw [hnew.asked_nil] at hserved
    exact ⟨_, g', lines', hserved, hnew.fields_asked requests⟩
  · obtain ⟨said, hselect⟩ := Scheme.select_segmented p u best current g lines
    exact ⟨_, said, hselect, u.iteration_advance, u.wheel_advance⟩
  · exact ⟨_, Scheme.answer_report_segmented p hr g lines, rfl, rfl⟩
  · exact ⟨segment_of_alternates hnew.length_pos h j,
      length_segment_of_alternates hnew.length_pos h⟩

namespace Countdown

/-- A new segmented wheel with segments of two selections. -/
noncomputable def wheelOfTwo : Segmented ℝ where
  wheel := wheelFour []
  length := 2
  verbose := true
  iteration := 0
  destroySums := [0, 0]
  repairSums := [0, 0]

theorem make_wheelOfTwo :
    Segmented.make [3, 2, 1, 0] (1 / 2 : ℝ) 2 2 2 none (3 / 4) true = .ok wheelOfTwo := by
  have hwheel : Roulette.make [3, 2, 1, 0] (1 / 2 : ℝ) 2 2 none (3 / 4) = .ok (wheelFour []) :=
    make_wheelFour (by simp)
  rw [Segmented.make, hwheel]
  rfl

/-- Three selections, and two reports in turn with them. -/
noncomputable def inTurn : List (Request (Level ℝ)) :=
  [.select ⟨2⟩ ⟨2⟩, .report ⟨⟨1⟩, (0, 0), .best⟩, .select ⟨1⟩ ⟨1⟩, .report ⟨⟨1⟩, (1, 1), .better⟩,
    .select ⟨1⟩ ⟨1⟩]

end Countdown

open Countdown in
/-- After three selections one segment is closed.  It has one report in it, which lifted the
weights of the pair it names; the second report is in the sums. -/
theorem segmented_weights_in_turn :
    Segmented.make [3, 2, 1, 0] (1 / 2 : ℝ) 2 2 2 none (3 / 4) true = .ok wheelOfTwo ∧
    (∀ request ∈ inTurn, request.Legal (Coupling.all 2 2)) ∧ Alternates inTurn ∧
    (segment 2 0 inTurn).length = 1 ∧
    ∃ t g' lines',
      result ((Scheme.selector EpsilonGreedy.policy).serve inTurn)
          ⟨.segmented wheelOfTwo, ⟨0, 1⟩, #[]⟩ = (.ok (), ⟨.segmented t, g', lines'⟩) ∧
      t.iteration = 3 ∧ t.wheel.destroyWeights = [2, 3 / 4] ∧
      t.wheel.repairWeights = [2, 3 / 4] ∧ t.destroySums = [0, 2] ∧ t.repairSums = [0, 2] := by
  have hlegal : ∀ request ∈ inTurn, request.Legal (Coupling.all 2 2) := by
    simp only [inTurn, List.forall_mem_cons]
    exact ⟨True.intro, rfl, True.intro, rfl, True.intro, fun _ h => absurd h List.not_mem_nil⟩
  have hturns : Alternates inTurn := .turn _ _ _ (.turn _ _ _ (.select _ _))
  obtain ⟨-, -, hserves, -, -, -, hsegments⟩ :=
    segmented_weights_fold_segments (X := Level ℝ) make_wheelOfTwo EpsilonGreedy.policy
  obtain ⟨t, g', lines', hserved, hiteration, hd, hr, hds, hrs⟩ :=
    hserves inTurn hlegal ⟨0, 1⟩ #[]
  have hclosed : (segment 2 0 inTurn).length = 1 := (hsegments inTurn hturns 0).2 (by decide)
  refine ⟨make_wheelOfTwo, hlegal, hturns, hclosed, t, g', lines', hserved, hiteration, ?_, ?_, ?_,
    ?_⟩
  · have hamounts : t.wheel.destroyWeights = [Roulette.weightAfter (1 / 2) (3 / 4) [[3].sum],
        Roulette.weightAfter (1 / 2) (3 / 4) [[].sum]] := hd
    norm_num [hamounts, Roulette.weightAfter, max_def]
  · have hamounts : t.wheel.repairWeights = [Roulette.weightAfter (1 / 2) (3 / 4) [[3].sum],
        Roulette.weightAfter (1 / 2) (3 / 4) [[].sum]] := hr
    norm_num [hamounts, Roulette.weightAfter, max_def]
  · have hamounts : t.destroySums = [[].sum, [2].sum] := hds
    rw [hamounts, List.sum_nil, List.sum_singleton]
  · have hamounts : t.repairSums = [[].sum, [2].sum] := hrs
    rw [hamounts, List.sum_nil, List.sum_singleton]

end LargeNeighbourhood
