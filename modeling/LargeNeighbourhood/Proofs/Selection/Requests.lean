/-
# Requests in any order

A search asks its scheme in turn for a pair and for attention to a report, but a scheme may be asked
in any order: twice for a pair, or told of several reports in a row.  `Selector.serve` has a scheme
answer requests one after the other until one fails.

A wheel is known by what its requests made of it.  Where one request takes the state that belongs
to the requests so far to the state that belongs to one more, all requests are answered and lead to
the state that belongs to all (`Selector.serve_ok`).

An operator has a weight, and what is mixed into it is a list of amounts: `Roulette.weightAfter`
is the weight after them, a fold.  It lies between one, the floor and the largest amount.
-/
import Mathlib
import LargeNeighbourhood.Proofs.Selection.Means

namespace LargeNeighbourhood

open Act

/-! ## 1. Requests and reports -/

/-- What is asked of a scheme: a pair, or that it take a report. -/
inductive Request (X : Type) where
  | select (best current : X)
  | report (report : Report X)

namespace Request

variable {X : Type}

/-- The report that a request brings. -/
def report? : Request X → Option (Report X)
  | select _ _ => none
  | report r => some r

/-- A pair is asked for. -/
def asks : Request X → Bool
  | select _ _ => true
  | report _ => false

/-- A report is legal when its pair is. -/
def Legal (c : Coupling) : Request X → Prop
  | select _ _ => True
  | report r => c.allows r.pair.1 r.pair.2 = true

end Request

section Requests

variable {X : Type}

/-- The reports among some requests, in order. -/
def reports (requests : List (Request X)) : List (Report X) := requests.filterMap Request.report?

/-- How often a pair was asked for. -/
def selections (requests : List (Request X)) : Nat := requests.countP Request.asks

@[simp] theorem reports_append (xs ys : List (Request X)) :
    reports (xs ++ ys) = reports xs ++ reports ys :=
  List.filterMap_append

@[simp] theorem selections_append (xs ys : List (Request X)) :
    selections (xs ++ ys) = selections xs + selections ys :=
  List.countP_append

@[simp] theorem selections_select (best current : X) (rest : List (Request X)) :
    selections (.select best current :: rest) = selections rest + 1 :=
  List.countP_cons_of_pos rfl

@[simp] theorem selections_report (r : Report X) (rest : List (Request X)) :
    selections (.report r :: rest) = selections rest :=
  List.countP_cons_of_neg (by simp [Request.asks])

/-- What became of the candidates of one operator, in order.  The `side` of a pair on which the
operator stands is its first or its second. -/
def outcomesOf (side : Nat × Nat → Nat) (i : Nat) (reports : List (Report X)) : List Outcome :=
  (reports.filter fun r => side r.pair = i).map Report.outcome

theorem outcomesOf_append (side : Nat × Nat → Nat) (i : Nat) (xs ys : List (Report X)) :
    outcomesOf side i (xs ++ ys) = outcomesOf side i xs ++ outcomesOf side i ys := by
  unfold outcomesOf
  rw [List.filter_append, List.map_append]

/-- A report is about the operators that its pair names. -/
theorem outcomesOf_singleton (side : Nat × Nat → Nat) (i : Nat) (r : Report X) :
    outcomesOf side i [r] = if i = side r.pair then [r.outcome] else [] := by
  unfold outcomesOf
  rw [List.filter_singleton]
  by_cases h : side r.pair = i
  · rw [if_pos h.symm, decide_eq_true h]
    rfl
  · rw [if_neg (Ne.symm h), decide_eq_false h]
    rfl

end Requests

/-! ## 2. Serving -/

namespace Selector

variable {K X σ : Type}

/-- Answers one request. -/
def answer (f : Selector K X σ) : Request X → Act K σ Unit
  | .select best current => do
    let _ ← f.select best current
  | .report r => f.update r.candidate (Pair.ofNat r.pair) r.outcome

/-- Answers requests, one after the other, until one fails. -/
def serve (f : Selector K X σ) : List (Request X) → Act K σ Unit
  | [] => return ()
  | request :: rest => do
    f.answer request
    f.serve rest

/-- **What requests lead to.**  If every admissible request is answered, and takes the state after
some requests to the state after one more, then all requests are answered and lead to the state
after all. -/
theorem serve_ok {f : Selector K X σ} {admissible : Request X → Prop}
    (after : List (Request X) → σ)
    (hanswer : ∀ (done : List (Request X)) (request : Request X), admissible request →
      ∀ g lines, ∃ g' lines', result (f.answer request) ⟨after done, g, lines⟩
        = (.ok (), ⟨after (done ++ [request]), g', lines'⟩))
    {requests : List (Request X)} (h : ∀ request ∈ requests, admissible request)
    (done : List (Request X)) (g : Generator) (lines : Array (Line K)) :
    ∃ g' lines', result (f.serve requests) ⟨after done, g, lines⟩
      = (.ok (), ⟨after (done ++ requests), g', lines'⟩) := by
  induction requests generalizing done g lines with
  | nil => exact ⟨g, lines, by rw [List.append_nil]; rfl⟩
  | cons request rest ih =>
    obtain ⟨hrequest, hrest⟩ := List.forall_mem_cons.1 h
    obtain ⟨g₁, lines₁, hfirst⟩ := hanswer done request hrequest g lines
    obtain ⟨g₂, lines₂, hlast⟩ := ih hrest (done ++ [request]) g₁ lines₁
    refine ⟨g₂, lines₂, ?_⟩
    rw [List.append_cons, serve, result_bind, hfirst]
    exact hlast

end Selector

/-! ## 3. A list with one entry for each operator -/

/-- A modification of the table of a function is the table of the modified function. -/
theorem map_range_modify {α : Type} (f : Nat → α) (n d : Nat) (g : α → α) :
    ((List.range n).map f).modify d g
      = (List.range n).map fun i => if i = d then g (f i) else f i := by
  refine List.ext_getElem (by simp) fun i hi hi' => ?_
  rw [List.getElem_modify, List.getElem_map, List.getElem_map, List.getElem_range]
  by_cases h : d = i
  · rw [if_pos h, if_pos h.symm]
  · rw [if_neg h, if_neg (Ne.symm h)]

/-- The table of a constant. -/
theorem map_range_eq_replicate {α : Type} {f : Nat → α} {a : α} (h : ∀ i, f i = a) (n : Nat) :
    (List.range n).map f = List.replicate n a := by
  rw [funext h, List.map_const', List.length_range]

/-! ## 4. Weights -/

namespace Scores

variable {K : Type} [LinearOrder K]

/-- The largest of the four scores that count. -/
def highest (s : Scores K) : K := max (max s.best s.better) (max s.accept s.reject)

theorem of_le_highest (s : Scores K) (o : Outcome) : s.of o ≤ s.highest := by
  cases o with
  | best => exact le_max_of_le_left (le_max_left _ _)
  | better => exact le_max_of_le_left (le_max_right _ _)
  | accept => exact le_max_of_le_right (le_max_left _ _)
  | reject => exact le_max_of_le_right (le_max_right _ _)

/-- The score of an outcome stands at its place in the list that the scores were read from. -/
theorem getElem?_of_ofList {K : Type} [Scalar K] {xs : List K} {s : Scores K}
    (h : ofList xs = .ok s) (o : Outcome) : xs[o.index]? = some (s.of o) := by
  unfold ofList at h
  split at h
  · split at h
    · exact absurd h (by simp)
    · cases h
      cases o <;> rfl
  · exact absurd h (by simp)

end Scores

namespace Roulette

variable {K : Type} [Field K] [LinearOrder K]

/-- The weight of an operator after these amounts were mixed into it, one after the other. -/
def weightAfter (decay floor : K) (amounts : List K) : K :=
  amounts.foldl (fun weight amount => max floor (decay * weight + (1 - decay) * amount)) 1

theorem weightAfter_snoc (decay floor : K) (amounts : List K) (amount : K) :
    weightAfter decay floor (amounts ++ [amount])
      = max floor (decay * weightAfter decay floor amounts + (1 - decay) * amount) := by
  rw [weightAfter, List.foldl_append, List.foldl_cons, List.foldl_nil]
  rfl

/-- A wheel mixes one more amount into a weight. -/
theorem mix_weightAfter (s : Roulette K) (amounts : List K) (amount : K) :
    s.mix amount (weightAfter s.decay s.floor amounts)
      = weightAfter s.decay s.floor (amounts ++ [amount]) := by
  rw [weightAfter_snoc, mix, Scalar.upper_eq_max, max_comm]

/-- A weight is one, or not below the floor. -/
theorem min_le_weightAfter (decay floor : K) (amounts : List K) :
    min 1 floor ≤ weightAfter decay floor amounts := by
  induction amounts using List.reverseRecOn with
  | nil => exact min_le_left _ _
  | append_singleton amounts amount _ =>
    rw [weightAfter_snoc]
    exact (min_le_right _ _).trans (le_max_left _ _)

variable [IsStrictOrderedRing K]

theorem weightAfter_pos {floor : K} (hfloor : 0 < floor) (decay : K) (amounts : List K) :
    0 < weightAfter decay floor amounts :=
  (lt_min one_pos hfloor).trans_le (min_le_weightAfter _ _ _)

/-- A mean lies below a bound of both. -/
theorem weightAfter_le {decay floor bound : K} (hdecay : 0 ≤ decay ∧ decay ≤ 1)
    (hone : 1 ≤ bound) (hfloor : floor ≤ bound) {amounts : List K}
    (hamounts : ∀ x ∈ amounts, x ≤ bound) : weightAfter decay floor amounts ≤ bound := by
  induction amounts using List.reverseRecOn with
  | nil => exact hone
  | append_singleton amounts amount ih =>
    obtain ⟨hbefore, hlast⟩ := List.forall_mem_append.1 hamounts
    have hweight := mul_le_mul_of_nonneg_left (ih hbefore) hdecay.1
    have hamount := mul_le_mul_of_nonneg_left (hlast amount (List.mem_singleton_self _))
      (sub_nonneg.2 hdecay.2)
    rw [weightAfter_snoc]
    refine max_le hfloor ?_
    calc decay * weightAfter decay floor amounts + (1 - decay) * amount
        ≤ decay * bound + (1 - decay) * bound := add_le_add hweight hamount
      _ = bound := by ring

/-- A wheel as it is made: with what was asked for, and all weights one. -/
structure New (scores : List K) (decay floor : K) (numDestroy numRepair : Nat)
    (s : Roulette K) : Prop where
  scores_eq : Scores.ofList scores = .ok s.scores
  decay_eq : s.decay = decay
  decay_mem : 0 ≤ decay ∧ decay ≤ 1
  floor_eq : s.floor = floor
  destroy_eq : s.coupling.numDestroy = numDestroy
  repair_eq : s.coupling.numRepair = numRepair
  destroyWeights_eq : s.destroyWeights = List.replicate numDestroy 1
  repairWeights_eq : s.repairWeights = List.replicate numRepair 1

omit [IsStrictOrderedRing K] in
theorem new_of_make {scores : List K} {decay floor : K} {numDestroy numRepair : Nat}
    {coupling? : Option Coupling} {s : Roulette K}
    (h : make scores decay numDestroy numRepair coupling? floor = .ok s) :
    New scores decay floor numDestroy numRepair s := by
  unfold make at h
  obtain ⟨⟨c, usable⟩, hc, h⟩ := Checks.bind_ok_iff.1 h
  obtain ⟨scores', hscores, h⟩ := Checks.bind_ok_iff.1 h
  obtain ⟨hdecay, h⟩ := Checks.guard_ok_iff.1 h
  obtain ⟨-, h⟩ := Checks.guard_ok_iff.1 h
  cases Checks.pure_ok_iff.1 h
  rw [Bool.not_eq_true, Bool.not_eq_false'] at hdecay
  obtain ⟨hd, hr⟩ := Coupling.forScheme_ok hc
  exact ⟨hscores, rfl, Scalar.within_iff.1 hdecay, rfl, hd, hr, rfl, rfl⟩

/-- A turning wheel with a usable coupling draws. -/
theorem draw_ok {s : Roulette K} (h : s.Turning) (husable : s.coupling.Usable) (g : Generator) :
    ∃ dr g', s.draw g = (.ok dr, g') := by
  rcases draw_cases h g with ⟨dr, g', hdraw, -⟩ | ⟨d, g', -, hd, hnone⟩
  · exact ⟨dr, g', hdraw⟩
  · exact absurd hnone (husable.partners_ne_nil d hd)

end Roulette

end LargeNeighbourhood
