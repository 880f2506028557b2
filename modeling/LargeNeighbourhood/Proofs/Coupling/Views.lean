/-
# All views of an edited matrix agree

The marks of a matrix lie row by row in one array.  Two pairs inside the matrix never share a cell of
it (`cell_inj`), and every cell belongs to a pair, so the array is the marks in their order
(`cells_eq`), and the legal pairs are those of the marked cells (`legalPairs_eq_cells`).  An edit inside
the matrix therefore changes one mark and no other (`allows_of_set`), and an edit outside is refused
before anything is written (`edit_cases`).

A matrix has a history: it was made in one of four ways (`Origin`), and then edited, where some of the
edits may have been refused.  Its marks are those of the history (`allows_editAll`).  All views are
read off the marks (`shows_allows`), so whichever view is asked, it tells of the same history
(`views_of_history`).
-/
import Mathlib
import LargeNeighbourhood.Proofs.Act
import LargeNeighbourhood.Proofs.Coupling

namespace LargeNeighbourhood

open Act

namespace Coupling

variable {K : Type} {c t : Coupling} {d r : Nat} {coupled : Bool}

/-! ## 1. One edit -/

/-- Matrices of one shape are the same if single pairs are marked in the same way. -/
theorem eq_iff_mark : c = t ↔ c.numDestroy = t.numDestroy ∧ c.numRepair = t.numRepair ∧
    ∀ d < c.numDestroy, ∀ r < c.numRepair,
      (c.mark d r : Except (Fault K) Bool) = t.mark d r := by
  rw [eq_iff_allows]
  refine and_congr_right fun hd => and_congr_right fun hr =>
    forall₂_congr fun d hdlt => forall₂_congr fun r hrlt => ?_
  rw [mark_eq ⟨hdlt, hrlt⟩, mark_eq ⟨hd ▸ hdlt, hr ▸ hrlt⟩, Except.ok.injEq]

/-- An edit changes what is told of one pair. -/
theorem mark_of_set (h : (c.set d r coupled : Except (Fault K) Coupling) = .ok t) (i j : Nat) :
    (t.mark i j : Except (Fault K) Bool)
      = if i = d ∧ j = r then .ok coupled else c.mark i j := by
  obtain ⟨hd, hr⟩ := shape_set h
  unfold mark
  rw [hd, hr, allows_of_set h]
  by_cases heq : i = d ∧ j = r
  · have hin : d < c.numDestroy ∧ r < c.numRepair := by
      by_contra hout
      rw [set, dif_neg hout] at h
      exact absurd h (by simp)
    rw [if_pos heq, if_pos heq, heq.1, heq.2, if_pos hin]
  · rw [if_neg heq, if_neg heq]

/-- The mark to be set for a pair. -/
structure Edit where
  destroy : Nat
  repair : Nat
  coupled : Bool

/-- The pair lies inside the matrix. -/
def Edit.Inside (e : Edit) (c : Coupling) : Prop := e.destroy < c.numDestroy ∧ e.repair < c.numRepair

/-- Sets a mark of the matrix that a component holds. -/
def edit (e : Edit) : Act K Coupling Unit := do
  become (← Act.ofExcept ((← own).set e.destroy e.repair e.coupled))

/-- **All that an edit can do.**  Inside the matrix it succeeds; outside it is refused and changes
nothing. -/
theorem edit_cases (e : Edit) (w : Setting K Coupling) :
    (e.Inside w.own ∧ ∃ t, (w.own.set e.destroy e.repair e.coupled : Except (Fault K) _) = .ok t ∧
      result (edit e) w = (.ok (), { w with own := t })) ∨
    (¬e.Inside w.own ∧
      result (edit e) w = (.error (.couplingIndex e.destroy e.repair), w)) := by
  unfold edit
  rw [result_bind, result_own]
  simp only
  rw [result_exchange (fun t => t)]
  by_cases h : e.Inside w.own
  · have hset : (w.own.set e.destroy e.repair e.coupled : Except (Fault K) _) = .ok _ := dif_pos h
    rw [hset]
    exact Or.inl ⟨h, _, rfl, rfl⟩
  · have hset : (w.own.set e.destroy e.repair e.coupled : Except (Fault K) _)
        = .error (.couplingIndex e.destroy e.repair) := dif_neg h
    rw [hset]
    exact Or.inr ⟨h, rfl⟩

/-- An edit inside the matrix keeps its shape and changes one mark. -/
theorem edit_ok {e : Edit} {w : Setting K Coupling} (h : e.Inside w.own) :
    ∃ t, result (edit e) w = (.ok (), { w with own := t }) ∧
      t.numDestroy = w.own.numDestroy ∧ t.numRepair = w.own.numRepair ∧
      ∀ d r, (t.mark d r : Except (Fault K) Bool)
        = if d = e.destroy ∧ r = e.repair then .ok e.coupled else w.own.mark d r := by
  rcases edit_cases e w with ⟨-, t, hset, hedit⟩ | ⟨hout, -⟩
  · obtain ⟨hd, hr⟩ := shape_set hset
    exact ⟨t, hedit, hd, hr, mark_of_set hset⟩
  · exact absurd h hout

theorem edit_error_iff {e : Edit} {w v : Setting K Coupling} {f : Fault K} :
    result (edit e) w = (.error f, v) ↔
      ¬e.Inside w.own ∧ f = .couplingIndex e.destroy e.repair ∧ v = w := by
  rcases edit_cases e w with ⟨hin, t, -, hedit⟩ | ⟨hout, hedit⟩
  · rw [hedit]
    simp [hin]
  · rw [hedit]
    simp [hout, eq_comm]

/-! ## 2. Any edits -/

/-- What edits make of a matrix.  Edits that are refused are passed over. -/
def editAll (edits : List Edit) (w : Setting K Coupling) : Setting K Coupling :=
  edits.foldl (fun w e => (result (edit e) w).2) w

/-- What the last edit of a pair set, if there was one. -/
def lastSet? (edits : List Edit) (d r : Nat) : Option Bool :=
  (edits.reverse.find? fun e => e.destroy = d ∧ e.repair = r).map Edit.coupled

theorem editAll_concat (edits : List Edit) (e : Edit) (w : Setting K Coupling) :
    editAll (edits ++ [e]) w = (result (edit e) (editAll edits w)).2 := by
  rw [editAll, List.foldl_append]
  rfl

theorem lastSet?_concat (edits : List Edit) (e : Edit) (d r : Nat) :
    lastSet? (edits ++ [e]) d r
      = if e.destroy = d ∧ e.repair = r then some e.coupled else lastSet? edits d r := by
  rw [lastSet?, List.reverse_append, List.reverse_singleton, List.singleton_append,
    List.find?_cons]
  by_cases h : e.destroy = d ∧ e.repair = r
  · rw [if_pos h, decide_eq_true h, Option.map_some]
  · rw [if_neg h, decide_eq_false h, lastSet?]

/-- Edits keep the shape of a matrix. -/
theorem shape_editAll (edits : List Edit) (w : Setting K Coupling) :
    (editAll edits w).own.numDestroy = w.own.numDestroy ∧
      (editAll edits w).own.numRepair = w.own.numRepair := by
  induction edits using List.reverseRecOn with
  | nil => exact ⟨rfl, rfl⟩
  | append_singleton edits e ih =>
    rw [editAll_concat]
    rcases edit_cases e (editAll edits w) with ⟨-, t, hset, hedit⟩ | ⟨-, hedit⟩
    · obtain ⟨hd, hr⟩ := shape_set hset
      rw [hedit]
      exact ⟨hd.trans ih.1, hr.trans ih.2⟩
    · rw [hedit]
      exact ih

/-- **A mark is what the last edit of its pair set, or what it was at first.**  The last edit of a
pair inside the matrix was not refused, so it counts. -/
theorem allows_editAll {w : Setting K Coupling} (hd : d < w.own.numDestroy)
    (hr : r < w.own.numRepair) (edits : List Edit) :
    (editAll edits w).own.allows d r = (lastSet? edits d r).getD (w.own.allows d r) := by
  induction edits using List.reverseRecOn with
  | nil => rfl
  | append_singleton edits e ih =>
    rw [editAll_concat, lastSet?_concat]
    rcases edit_cases e (editAll edits w) with ⟨-, t, hset, hedit⟩ | ⟨hout, hedit⟩
    · rw [hedit, allows_of_set hset, ih]
      by_cases h : e.destroy = d ∧ e.repair = r
      · rw [if_pos h, if_pos ⟨h.1.symm, h.2.symm⟩, Option.getD_some]
      · have hne : ¬(d = e.destroy ∧ r = e.repair) := fun heq => h ⟨heq.1.symm, heq.2.symm⟩
        rw [if_neg h, if_neg hne]
    · have hne : ¬(e.destroy = d ∧ e.repair = r) := by
        rintro ⟨rfl, rfl⟩
        obtain ⟨hrows, hcolumns⟩ := shape_editAll edits w
        exact hout ⟨hrows ▸ hd, hcolumns ▸ hr⟩
      rw [hedit, if_neg hne, ih]

/-! ## 3. Views -/

/-- The partners of a destroy operator are the repair operators of its legal pairs. -/
theorem partners_eq_legalPairs (c : Coupling) (d : Nat) :
    c.partners d = (c.legalPairs.filter fun dr => dr.1 = d).map Prod.snd := by
  have hpartners : (c.partners d).Pairwise (· < ·) := List.pairwise_lt_range.filter _
  have hpairs : ((c.legalPairs.filter fun dr => dr.1 = d).map Prod.snd).Pairwise (· < ·) := by
    rw [List.pairwise_map, List.pairwise_filter]
    refine c.pairwise_legalPairs.imp fun {a b} hlt ha hb => ?_
    rw [decide_eq_true_eq] at ha hb
    rcases hlt with hlt | ⟨-, hlt⟩
    · omega
    · exact hlt
  refine hpartners.eq_of_mem_iff hpairs fun r => ?_
  rw [mem_partners, List.mem_map]
  simp only [List.mem_filter, mem_legalPairs, decide_eq_true_eq]
  constructor
  · intro h
    exact ⟨(d, r), ⟨h, rfl⟩, rfl⟩
  · rintro ⟨dr, ⟨h, rfl⟩, rfl⟩
    exact h

instance : Std.Antisymm Earlier := ⟨fun _ _ h h' => absurd h' h.asymm⟩

instance : Std.Irrefl Earlier := ⟨fun _ h => h.asymm h⟩

/-- Row by row is the order of the cells. -/
theorem earlier_of_lt {n k l : Nat} (h : k < l) : Earlier (k / n, k % n) (l / n, l % n) := by
  rcases (Nat.div_le_div_right h.le : k / n ≤ l / n).lt_or_eq with hrow | hrow
  · exact Or.inl hrow
  · have hk := Nat.div_add_mod k n
    have hl := Nat.div_add_mod l n
    rw [hrow] at hk
    exact Or.inr ⟨hrow, by omega⟩

/-- **The legal pairs are those of the marked cells, in the order of the array.** -/
theorem legalPairs_eq_cells (c : Coupling) : c.legalPairs =
    ((List.range (c.numDestroy * c.numRepair)).filter fun k => c.cells[k]? = some true).map
      fun k => (k / c.numRepair, k % c.numRepair) := by
  refine c.pairwise_legalPairs.eq_of_mem_iff ?_ fun dr => ?_
  · rw [List.pairwise_map]
    exact (List.pairwise_lt_range.filter _).imp earlier_of_lt
  · rw [mem_legalPairs, List.mem_map]
    simp only [List.mem_filter, List.mem_range, decide_eq_true_eq]
    constructor
    · intro h
      have hin := lt_of_allows h
      have hlt := index_lt hin
      rw [c.size_cells] at hlt
      refine ⟨dr.1 * c.numRepair + dr.2, ⟨hlt, ?_⟩, Prod.ext (cell_div hin.2) (cell_mod hin.2)⟩
      rw [getElem?_cells hin, h]
    · rintro ⟨k, ⟨hk, hmarked⟩, rfl⟩
      have hcell := getElem?_cells (inside_of_lt hk)
      rw [Nat.div_add_mod', hmarked, Option.some.injEq] at hcell
      exact hcell.symm

/-- The first destroy operator without a partner has none before it. -/
theorem uncoupled?_eq_some_iff : c.uncoupled? = some d ↔
    d < c.numDestroy ∧ c.partners d = [] ∧ ∀ i < d, c.partners i ≠ [] := by
  rw [uncoupled?_eq, List.find?_range_eq_some, List.mem_range, List.isEmpty_iff]
  simp only [Bool.not_eq_true', List.isEmpty_eq_false_iff]
  tauto

theorem validate_eq (c : Coupling) : (c.validate : Except (Fault K) Unit) =
    if 0 < c.numDestroy ∧ 0 < c.numRepair then
      match c.uncoupled? with
      | some d => .error (.uncoupledDestroy d)
      | Option.none => .ok ()
    else .error .missingOperators := by
  unfold validate require
  split
  · split
    · rename_i d hd
      simp only [hd]
      rfl
    · rename_i hnone
      simp only [hnone]
      rfl
  · rfl

theorem coupledRepair_eq (h : d < c.numDestroy) :
    (c.coupledRepair d : Except (Fault K) (List Nat)) = .ok (c.partners d) :=
  if_pos (Or.inl h)

theorem coupledRepair_eq_nil_iff (h : d < c.numDestroy) :
    (c.coupledRepair d : Except (Fault K) (List Nat)) = .ok [] ↔ c.partners d = [] := by
  rw [coupledRepair_eq h, Except.ok.injEq]

/-- A matrix passes the check if there are operators of both kinds and each destroy operator has a
partner ... -/
theorem validate_ok_iff : (c.validate : Except (Fault K) Unit) = .ok () ↔
    0 < c.numDestroy ∧ 0 < c.numRepair ∧ ∀ d < c.numDestroy, c.partners d ≠ [] := by
  rw [validate_eq]
  constructor
  · intro h
    split at h
    · rename_i hpos
      split at h
      · exact absurd h (by simp)
      · rename_i hnone
        exact ⟨hpos.1, hpos.2, fun d hd =>
          partners_ne_nil_iff.2 (uncoupled?_eq_none_iff.1 hnone d hd)⟩
    · exact absurd h (by simp)
  · rintro ⟨hd, hr, hpartners⟩
    have hnone : c.uncoupled? = Option.none :=
      uncoupled?_eq_none_iff.2 fun d hlt => partners_ne_nil_iff.1 (hpartners d hlt)
    rw [if_pos ⟨hd, hr⟩, hnone]

/-- ... and else it is told that operators are missing, or which is the first destroy operator without
a partner. -/
theorem validate_error_iff {f : Fault K} : c.validate = .error f ↔
    (¬(0 < c.numDestroy ∧ 0 < c.numRepair) ∧ f = .missingOperators) ∨
    ((0 < c.numDestroy ∧ 0 < c.numRepair) ∧ ∃ d, c.uncoupled? = some d ∧
      f = .uncoupledDestroy d) := by
  rw [validate_eq]
  by_cases hpos : 0 < c.numDestroy ∧ 0 < c.numRepair
  · rw [if_pos hpos]
    cases c.uncoupled? with
    | none => simp [hpos]
    | some d => simp [hpos, eq_comm]
  · rw [if_neg hpos]
    simp [hpos, eq_comm]

/-- All views of a matrix tell the same marks. -/
structure Shows (K : Type) (c : Coupling) (marks : Nat → Nat → Bool) : Prop where
  mark_ok : ∀ d < c.numDestroy, ∀ r < c.numRepair,
    (c.mark d r : Except (Fault K) Bool) = .ok (marks d r)
  mark_error : ∀ d r (f : Fault K), c.mark d r = .error f ↔
    ¬(d < c.numDestroy ∧ r < c.numRepair) ∧ f = .couplingIndex d r
  cells : c.cells.toList = (List.range (c.numDestroy * c.numRepair)).map
    fun k => marks (k / c.numRepair) (k % c.numRepair)
  legalPairs_cells : c.legalPairs =
    ((List.range (c.numDestroy * c.numRepair)).filter fun k => c.cells[k]? = some true).map
      fun k => (k / c.numRepair, k % c.numRepair)
  legalPairs_ascend : c.legalPairs.Pairwise Earlier
  legalPairs_nodup : c.legalPairs.Nodup
  mem_legalPairs : ∀ dr, dr ∈ c.legalPairs ↔
    dr.1 < c.numDestroy ∧ dr.2 < c.numRepair ∧ marks dr.1 dr.2 = true
  coupledRepair : ∀ d < c.numDestroy, (c.coupledRepair d : Except (Fault K) (List Nat))
    = .ok ((c.legalPairs.filter fun dr => dr.1 = d).map Prod.snd)
  validate_ok : (c.validate : Except (Fault K) Unit) = .ok () ↔
    0 < c.numDestroy ∧ 0 < c.numRepair ∧
      ∀ d < c.numDestroy, (c.coupledRepair d : Except (Fault K) (List Nat)) ≠ .ok []
  validate_error : ∀ f : Fault K, c.validate = .error f ↔
    (¬(0 < c.numDestroy ∧ 0 < c.numRepair) ∧ f = .missingOperators) ∨
    ((0 < c.numDestroy ∧ 0 < c.numRepair) ∧ ∃ d < c.numDestroy,
      (c.coupledRepair d : Except (Fault K) (List Nat)) = .ok [] ∧
      (∀ i < d, (c.coupledRepair i : Except (Fault K) (List Nat)) ≠ .ok []) ∧
      f = .uncoupledDestroy d)

/-- Marks that are the same inside a matrix are the same for its views. -/
theorem Shows.congr {marks others : Nat → Nat → Bool} (h : c.Shows K marks)
    (hsame : ∀ d < c.numDestroy, ∀ r < c.numRepair, marks d r = others d r) :
    c.Shows K others where
  mark_ok d hd r hr := by rw [h.mark_ok d hd r hr, hsame d hd r hr]
  mark_error := h.mark_error
  cells := by
    rw [h.cells]
    refine List.map_congr_left fun k hk => ?_
    obtain ⟨hd, hr⟩ := inside_of_lt (List.mem_range.1 hk)
    exact hsame _ hd _ hr
  legalPairs_cells := h.legalPairs_cells
  legalPairs_ascend := h.legalPairs_ascend
  legalPairs_nodup := h.legalPairs_nodup
  mem_legalPairs dr := by
    rw [h.mem_legalPairs]
    refine and_congr_right fun hd => and_congr_right fun hr => ?_
    rw [hsame _ hd _ hr]
  coupledRepair := h.coupledRepair
  validate_ok := h.validate_ok
  validate_error := h.validate_error

/-- Every matrix shows its marks in all of its views. -/
theorem shows_allows (c : Coupling) : c.Shows K c.allows where
  mark_ok d hd r hr := mark_eq ⟨hd, hr⟩
  mark_error d r f := by
    unfold mark
    split
    · rename_i h
      simp [h]
    · rename_i h
      simp [h, eq_comm]
  cells := c.cells_eq
  legalPairs_cells := c.legalPairs_eq_cells
  legalPairs_ascend := c.pairwise_legalPairs
  legalPairs_nodup := c.nodup_legalPairs
  mem_legalPairs dr := by
    rw [Coupling.mem_legalPairs]
    constructor
    · intro h
      obtain ⟨hd, hr⟩ := lt_of_allows h
      exact ⟨hd, hr, h⟩
    · exact fun h => h.2.2
  coupledRepair d hd := by
    rw [← c.partners_eq_legalPairs, coupledRepair_eq hd]
  validate_ok := by
    rw [validate_ok_iff]
    refine and_congr_right fun _ => and_congr_right fun _ => forall₂_congr fun d hd => ?_
    exact not_congr (coupledRepair_eq_nil_iff hd).symm
  validate_error f := by
    rw [validate_error_iff]
    refine or_congr_right (and_congr_right fun _ => exists_congr fun d => ?_)
    rw [uncoupled?_eq_some_iff, and_assoc, and_assoc]
    refine and_congr_right fun hd => and_congr (coupledRepair_eq_nil_iff hd).symm ?_
    refine and_congr_left fun _ => forall₂_congr fun i hi => ?_
    exact not_congr (coupledRepair_eq_nil_iff (hi.trans hd)).symm

/-! ## 4. Histories -/

/-- The ways to make a matrix: without rows and columns, of a shape with no mark or with all of them,
or from its rows. -/
inductive Origin where
  | empty
  | unmarked (numDestroy numRepair : Nat)
  | marked (numDestroy numRepair : Nat)
  | listed (rows : List (List Bool))

namespace Origin

/-- The matrix that is made. -/
def make : Origin → Except (Fault K) Coupling
  | empty => .ok default
  | unmarked m n => .ok (Coupling.none m n)
  | marked m n => .ok (Coupling.all m n)
  | listed rows => ofRows rows

/-- Two rows are not equally long. -/
def Ragged : Origin → Prop
  | listed rows => ∃ row ∈ rows, ∃ other ∈ rows, row.length ≠ other.length
  | _ => False

/-- The number of rows. -/
def numDestroy : Origin → Nat
  | empty => 0
  | unmarked m _ | marked m _ => m
  | listed rows => rows.length

/-- The number of columns. -/
def numRepair : Origin → Nat
  | empty => 0
  | unmarked _ n | marked _ n => n
  | listed rows => width rows

/-- The first mark of a pair. -/
def marks : Origin → Nat → Nat → Bool
  | empty, _, _ | unmarked _ _, _, _ => false
  | marked _ _, _, _ => true
  | listed rows, d, r => ((rows[d]?.bind fun row => row[r]?)).getD false

/-- Rows of one length lie one after the other. -/
theorem getElem?_flatten {rows : List (List Bool)} {n : Nat} (h : ∀ row ∈ rows, row.length = n)
    (hr : r < n) : rows.flatten[d * n + r]? = rows[d]?.bind fun row => row[r]? := by
  induction rows generalizing d with
  | nil => rfl
  | cons row rest ih =>
    obtain ⟨hrow, hrest⟩ := List.forall_mem_cons.1 h
    rw [List.flatten_cons]
    cases d with
    | zero =>
      rw [Nat.zero_mul, Nat.zero_add, List.getElem?_append_left (by omega)]
      rfl
    | succ d =>
      have hskip : (d + 1) * n + r - row.length = d * n + r := by
        rw [Nat.succ_mul, hrow]
        omega
      rw [List.getElem?_append_right (by rw [Nat.succ_mul, hrow]; omega), hskip, ih hrest]
      rfl

/-- Rows are equally long if they are as long as the first. -/
theorem forall_width_iff {rows : List (List Bool)} :
    (∀ row ∈ rows, row.length = width rows) ↔ ¬(listed rows).Ragged := by
  constructor
  · rintro h ⟨row, hrow, other, hother, hne⟩
    exact hne ((h row hrow).trans (h other hother).symm)
  · intro h row hrow
    by_contra hne
    obtain ⟨first, rest, rfl⟩ := List.exists_cons_of_ne_nil (List.ne_nil_of_mem hrow)
    exact h ⟨row, hrow, first, List.mem_cons_self, hne⟩

/-- **All that comes of making a matrix.**  Ragged rows are refused; else the matrix has the shape
and the marks of its origin. -/
theorem make_cases (origin : Origin) :
    (origin.Ragged ∧ (origin.make : Except (Fault K) Coupling) = .error .raggedRows) ∨
    (¬origin.Ragged ∧ ∃ c, (origin.make : Except (Fault K) Coupling) = .ok c ∧
      c.numDestroy = origin.numDestroy ∧ c.numRepair = origin.numRepair ∧
      ∀ d < c.numDestroy, ∀ r < c.numRepair, c.allows d r = origin.marks d r) := by
  cases origin with
  | empty =>
    exact Or.inr ⟨id, _, rfl, rfl, rfl, fun d hd => absurd hd (Nat.not_lt_zero d)⟩
  | unmarked m n =>
    exact Or.inr ⟨id, _, rfl, rfl, rfl, fun d hd r hr => allows_ofRule hd hr⟩
  | marked m n =>
    exact Or.inr ⟨id, _, rfl, rfl, rfl, fun d hd r hr => allows_ofRule hd hr⟩
  | listed rows =>
    by_cases h : ∀ row ∈ rows, row.length = width rows
    · refine Or.inr ⟨forall_width_iff.1 h, _, dif_pos h, rfl, rfl, fun d hd r hr => ?_⟩
      have hcell := getElem?_cells ⟨hd, hr⟩
      rw [List.getElem?_toArray, getElem?_flatten h hr] at hcell
      rw [marks, hcell, Option.getD_some]
    · exact Or.inl ⟨by_contra fun hnot => h (forall_width_iff.2 hnot), dif_neg h⟩

theorem make_error_iff {origin : Origin} {f : Fault K} :
    origin.make = .error f ↔ origin.Ragged ∧ f = .raggedRows := by
  rcases origin.make_cases (K := K) with ⟨hragged, hmake⟩ | ⟨hfine, c, hmake, -⟩
  · rw [hmake]
    simp [hragged, eq_comm]
  · rw [hmake]
    simp [hfine]

/-- A matrix that was made has the shape and the marks of its origin. -/
theorem of_make {origin : Origin} (h : (origin.make : Except (Fault K) Coupling) = .ok c) :
    c.numDestroy = origin.numDestroy ∧ c.numRepair = origin.numRepair ∧
      ∀ d < c.numDestroy, ∀ r < c.numRepair, c.allows d r = origin.marks d r := by
  rcases origin.make_cases (K := K) with ⟨-, hmake⟩ | ⟨-, made, hmake, hmade⟩
  · rw [hmake] at h
    exact absurd h (by simp)
  · rw [hmake] at h
    obtain rfl := Except.ok.inj h
    exact hmade

end Origin

/-- **All views tell of the same history.**  A matrix is refused only for ragged rows.  However one was
made and edited, its shape is that of its origin, and its marks are what the last edit of each pair
set, or what they were at first; single marks, the list of the legal pairs, the partners of a destroy
operator and the check of the matrix all show them (`Shows`).  An edit inside the matrix changes one
mark, and one outside is refused and changes nothing.  Two matrices are the same exactly where they
have one shape and show the same marks.  Up to `2³¹` rows and columns no index is too large for a
signed word of 32 bits. -/
theorem views_of_history (origin : Origin) (edits : List Edit) (rng : Generator)
    (lines : Array (Line K)) :
    ((∃ f : Fault K, origin.make = .error f) ↔ origin.Ragged) ∧
    (∀ f : Fault K, origin.make = .error f → f = .raggedRows ∧ f.kind = .invalidArgument) ∧
    (∀ d r : Nat, (Fault.couplingIndex d r : Fault K).kind = .outOfRange ∧
      (Fault.uncoupledDestroy d : Fault K).kind = .invalidArgument ∧
      (Fault.missingOperators : Fault K).kind = .invalidArgument) ∧
    ∀ c, (origin.make : Except (Fault K) Coupling) = .ok c →
      let w := editAll edits (⟨c, rng, lines⟩ : Setting K Coupling)
      w.own.numDestroy = origin.numDestroy ∧ w.own.numRepair = origin.numRepair ∧
      w.own.Shows K (fun d r => (lastSet? edits d r).getD (origin.marks d r)) ∧
      (∀ e : Edit, e.Inside w.own → ∃ t, result (edit e) w = (.ok (), { w with own := t }) ∧
        t.numDestroy = w.own.numDestroy ∧ t.numRepair = w.own.numRepair ∧
        ∀ d r, (t.mark d r : Except (Fault K) Bool)
          = if d = e.destroy ∧ r = e.repair then .ok e.coupled else w.own.mark d r) ∧
      (∀ (e : Edit) (f : Fault K) v, result (edit e) w = (.error f, v) ↔
        ¬e.Inside w.own ∧ f = .couplingIndex e.destroy e.repair ∧ v = w) ∧
      (∀ other : Coupling, w.own = other ↔
        w.own.numDestroy = other.numDestroy ∧ w.own.numRepair = other.numRepair ∧
        ∀ d < w.own.numDestroy, ∀ r < w.own.numRepair,
          (w.own.mark d r : Except (Fault K) Bool) = other.mark d r) ∧
      (w.own.numDestroy ≤ 2 ^ 31 → w.own.numRepair ≤ 2 ^ 31 → ∀ dr ∈ w.own.legalPairs,
        (Int32.ofNat dr.1).toInt = dr.1 ∧ (Int32.ofNat dr.2).toInt = dr.2) := by
  refine ⟨?_, fun f hf => ?_, fun d r => ⟨rfl, rfl, rfl⟩, fun c hc => ?_⟩
  · simp [Origin.make_error_iff]
  · obtain rfl := (Origin.make_error_iff.1 hf).2
    exact ⟨rfl, rfl⟩
  · intro w
    obtain ⟨hrows, hcolumns, hmarks⟩ := Origin.of_make hc
    obtain ⟨hd, hr⟩ : w.own.numDestroy = c.numDestroy ∧ w.own.numRepair = c.numRepair :=
      shape_editAll edits _
    have hshows : w.own.Shows K fun d r => (lastSet? edits d r).getD (origin.marks d r) := by
      refine (shows_allows w.own).congr fun d hdlt r hrlt => ?_
      rw [hd] at hdlt
      rw [hr] at hrlt
      rw [← hmarks d hdlt r hrlt]
      exact allows_editAll hdlt hrlt edits
    refine ⟨hd.trans hrows, hr.trans hcolumns, hshows, fun e => edit_ok,
      fun e f v => edit_error_iff, fun other => eq_iff_mark, fun hd hr dr hdr => ?_⟩
    obtain ⟨hdlt, hrlt⟩ := lt_of_allows (mem_legalPairs.1 hdr)
    exact ⟨Int32.toInt_ofNat_of_lt (hdlt.trans_le hd), Int32.toInt_ofNat_of_lt (hrlt.trans_le hr)⟩

/-- Two rows, of which the second is empty. -/
def stranded : Origin := .listed [[true, false], [false, false]]

/-- Edits that mark a pair of the second row, unmark the first row, go back on one of them, and name a
third row in between. -/
def rescue : List Edit :=
  [⟨1, 0, true⟩, ⟨1, 1, true⟩, ⟨2, 0, true⟩, ⟨0, 0, false⟩, ⟨1, 0, false⟩]

/-- After them the last edit of a pair counts, the first row is the one without partners, and a third
row is refused again. -/
theorem views_of_history_rescued :
    ∃ c, (stranded.make : Except (Fault Int) Coupling) = .ok c ∧
      let w := editAll rescue (⟨c, ⟨0, 1⟩, #[]⟩ : Setting Int Coupling)
      (⟨0, 1, true⟩ : Edit).Inside w.own ∧
      (w.own.mark 1 0 : Except (Fault Int) Bool) = .ok false ∧
      (w.own.mark 1 1 : Except (Fault Int) Bool) = .ok true ∧
      (w.own.coupledRepair 0 : Except (Fault Int) (List Nat)) = .ok [] ∧
      (w.own.validate : Except (Fault Int) Unit) = .error (.uncoupledDestroy 0) ∧
      (∃ t, result (edit ⟨0, 1, true⟩) w = (.ok (), { w with own := t }) ∧
        (t.mark 0 1 : Except (Fault Int) Bool) = .ok true ∧
        (t.mark 1 1 : Except (Fault Int) Bool) = .ok true) ∧
      result (edit ⟨2, 0, true⟩) w = (.error (.couplingIndex 2 0), w) := by
  obtain ⟨-, -, -, h⟩ := views_of_history stranded rescue ⟨0, 1⟩ (#[] : Array (Line Int))
  refine ⟨_, rfl, ?_⟩
  intro w
  obtain ⟨hrows, hcolumns, hshows, hedit, hrefused, -⟩ := h _ rfl
  have hrows : w.own.numDestroy = 2 := hrows
  have hcolumns : w.own.numRepair = 2 := hcolumns
  have hpos : 0 < w.own.numDestroy ∧ 0 < w.own.numRepair := by
    rw [hrows, hcolumns]
    decide
  have hin : (⟨0, 1, true⟩ : Edit).Inside w.own := by
    simp [Edit.Inside, hrows, hcolumns]
  have hout : ¬(⟨2, 0, true⟩ : Edit).Inside w.own := by
    simp [Edit.Inside, hrows]
  have hmark (d r : Nat) (hd : d < 2) (hr : r < 2) : (w.own.mark d r : Except (Fault Int) Bool)
      = .ok ((lastSet? rescue d r).getD (stranded.marks d r)) :=
    hshows.mark_ok d (hrows ▸ hd) r (hcolumns ▸ hr)
  have hnil : (w.own.coupledRepair 0 : Except (Fault Int) (List Nat)) = .ok [] := by
    rw [hshows.coupledRepair 0 hpos.1, List.filter_eq_nil_iff.2, List.map_nil]
    rintro ⟨d, r⟩ hdr hd
    obtain rfl : d = 0 := of_decide_eq_true hd
    obtain ⟨-, hr, hmarked⟩ := (hshows.mem_legalPairs _).1 hdr
    rw [hcolumns] at hr
    interval_cases r
    · exact absurd hmarked (by decide)
    · exact absurd hmarked (by decide)
  have hfirst : (w.own.validate : Except (Fault Int) Unit) = .error (.uncoupledDestroy 0) := by
    refine (hshows.validate_error _).2 (Or.inr ⟨hpos, 0, hpos.1, hnil, ?_, rfl⟩)
    exact fun i hi => absurd hi (Nat.not_lt_zero i)
  obtain ⟨t, hset, -, -, ht⟩ := hedit _ hin
  refine ⟨hin, hmark 1 0 (by decide) (by decide), hmark 1 1 (by decide) (by decide), hnil, hfirst,
    ⟨t, hset, ht 0 1, ?_⟩, (hrefused _ _ _).2 ⟨hout, rfl, rfl⟩⟩
  rw [ht 1 1]
  exact hmark 1 1 (by decide) (by decide)

end Coupling

end LargeNeighbourhood
