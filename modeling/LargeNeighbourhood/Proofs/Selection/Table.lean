/-
# The table of the legal pairs

A table lists the legal pairs row by row, so a number below its size stands for one legal pair and a
legal pair has one number (`pair?_index`, `eq_index_of_pair?`).

The way back goes through one array with a cell for every pair of the matrix.  Two pairs inside the
matrix never share a cell (`cell_inj`), so what is entered for one pair stays when the others are
entered, and the cell of a pair that is not legal keeps its mark (`getElem?_numbers`,
`getElem?_numbers_of_not_allows`).
-/
import Mathlib
import LargeNeighbourhood.Proofs.Coupling
import LargeNeighbourhood.Selection.PairTable

namespace LargeNeighbourhood

namespace PairTable

variable {t : PairTable} {i : Nat} {dr : Nat × Nat}

/-! ## 1. Numbers and pairs -/

/-- The place of a legal pair among the legal pairs; for any other pair, their number. -/
def index (t : PairTable) (pair : Nat × Nat) : Nat := t.pairs.idxOf pair

/-- A drawn entry of a table is a legal pair. -/
theorem allows_draw (t : PairTable) (g : Generator) :
    t.coupling.allows (t.draw g : (Nat × Nat) × Generator).1.1
      (t.draw g : (Nat × Nat) × Generator).1.2 = true := by
  have hmem : (t.draw g : (Nat × Nat) × Generator).1 ∈ t.pairs := Array.getElem_mem _
  rw [t.pairs_eq, List.mem_toArray] at hmem
  exact Coupling.mem_legalPairs.1 hmem

/-- A table numbers the legal pairs in their order. -/
theorem pair?_eq (t : PairTable) (i : Nat) : t.pair? i = t.coupling.legalPairs[i]? := by
  rw [pair?, t.pairs_eq, List.getElem?_toArray]

theorem allows_of_pair? (h : t.pair? i = some dr) : t.coupling.allows dr.1 dr.2 = true := by
  rw [t.pair?_eq] at h
  exact Coupling.mem_legalPairs.1 (List.mem_of_getElem? h)

/-- The number of a legal pair is its place in the table ... -/
theorem pair?_index (h : t.coupling.allows dr.1 dr.2 = true) : t.pair? (t.index dr) = some dr := by
  rw [t.pair?_eq, index, t.pairs_eq, List.idxOf_toArray]
  exact List.getElem?_idxOf (Coupling.mem_legalPairs.2 h)

/-- ... and its only place. -/
theorem eq_index_of_pair? (h : t.pair? i = some dr) : i = t.index dr := by
  rw [t.pair?_eq] at h
  obtain ⟨hi, hdr⟩ := List.getElem?_eq_some_iff.1 h
  rw [index, t.pairs_eq, List.idxOf_toArray, ← hdr]
  exact (t.coupling.nodup_legalPairs.idxOf_getElem i hi).symm

/-- The number of a legal pair is below the size of the table. -/
theorem index_lt_size (h : t.coupling.allows dr.1 dr.2 = true) : t.index dr < t.size := by
  have hmem : dr ∈ t.pairs := by
    rw [t.pairs_eq, List.mem_toArray]
    exact Coupling.mem_legalPairs.2 h
  exact Array.findIdx_lt_size_of_exists ⟨dr, hmem, by simp⟩

/-- Legal pairs have different numbers. -/
theorem index_inj {x : Nat × Nat}
    (h : t.coupling.allows dr.1 dr.2 = true) : t.index dr = t.index x ↔ dr = x := by
  have hmem : dr ∈ t.coupling.legalPairs := Coupling.mem_legalPairs.2 h
  rw [index, index, t.pairs_eq, List.idxOf_toArray, List.idxOf_toArray]
  exact List.idxOf_inj hmem

theorem lt_size_pairs (t : PairTable) (i : Fin t.size) : i.val < t.pairs.size := i.isLt

/-- The numbers below the size of a table, and the legal pairs. -/
def numbering (t : PairTable) :
    Fin t.size ≃ { dr : Nat × Nat // t.coupling.allows dr.1 dr.2 = true } where
  toFun i :=
    have h := t.lt_size_pairs i
    ⟨t.pairs[i.val], allows_of_pair? (Array.getElem?_eq_getElem h)⟩
  invFun dr := ⟨t.index dr.val, index_lt_size dr.property⟩
  left_inv i := Fin.ext (eq_index_of_pair? (Array.getElem?_eq_getElem i.isLt)).symm
  right_inv dr := Subtype.ext (Array.getElem_eq_iff.2 (pair?_index dr.property))

theorem pair?_eq_numbering (t : PairTable) (i : Fin t.size) :
    t.pair? i.val = some (t.numbering i).val :=
  Array.getElem?_eq_getElem i.isLt

theorem earlier_numbering {a b : Fin t.size} (h : a < b) :
    Coupling.Earlier (t.numbering a).val (t.numbering b).val := by
  have ha := t.pair?_eq_numbering a
  have hb := t.pair?_eq_numbering b
  rw [t.pair?_eq] at ha hb
  obtain ⟨halt, ha⟩ := List.getElem?_eq_some_iff.1 ha
  obtain ⟨hblt, hb⟩ := List.getElem?_eq_some_iff.1 hb
  rw [← ha, ← hb]
  exact List.pairwise_iff_getElem.1 t.coupling.pairwise_legalPairs a b halt hblt h

/-- Numbers ascend row by row. -/
theorem earlier_numbering_iff (t : PairTable) (a b : Fin t.size) :
    Coupling.Earlier (t.numbering a).val (t.numbering b).val ↔ a < b := by
  refine ⟨fun h => ?_, earlier_numbering⟩
  rcases lt_trichotomy a b with hlt | rfl | hlt
  · exact hlt
  · exact absurd h h.asymm
  · exact absurd (earlier_numbering hlt) h.asymm

/-! ## 2. Cells -/

/-- A pair inside the matrix has a cell. -/
theorem cell_lt (hd : dr.1 < t.coupling.numDestroy) (hr : dr.2 < t.coupling.numRepair) :
    t.cell dr < t.coupling.numDestroy * t.coupling.numRepair := by
  rw [← t.coupling.size_cells]
  exact Coupling.index_lt ⟨hd, hr⟩

/-- Two pairs inside the matrix have different cells. -/
theorem cell_inj {x : Nat × Nat} (hdr : dr.2 < t.coupling.numRepair)
    (hx : x.2 < t.coupling.numRepair) (h : t.cell dr = t.cell x) : dr = x := by
  obtain ⟨hrow, hcolumn⟩ := (Coupling.cell_inj hdr hx).1 h
  exact Prod.ext hrow hcolumn

/-- So a legal pair has a cell ... -/
theorem cell_lt_of_allows (h : t.coupling.allows dr.1 dr.2 = true) :
    t.cell dr < t.coupling.numDestroy * t.coupling.numRepair := by
  obtain ⟨hd, hr⟩ := Coupling.lt_of_allows h
  exact cell_lt hd hr

/-- ... which it shares with no other legal pair. -/
theorem cell_eq_iff {x : Nat × Nat} (hdr : t.coupling.allows dr.1 dr.2 = true)
    (hx : t.coupling.allows x.1 x.2 = true) : t.cell dr = t.cell x ↔ dr = x := by
  constructor
  · exact cell_inj (Coupling.lt_of_allows hdr).2 (Coupling.lt_of_allows hx).2
  · rintro rfl
    rfl

/-! ## 3. Entering numbers -/

variable {pairs : List (Nat × Nat)} {cells : Array Int} {j k : Nat}

theorem size_enter : (t.enter i pairs cells).size = cells.size := by
  induction pairs generalizing i cells with
  | nil => rfl
  | cons pair rest ih => rw [enter, ih, Array.size_setIfInBounds]

/-- The cells of other pairs stay as they are. -/
theorem getElem?_enter_of_not_mem (hk : k ∉ pairs.map t.cell) :
    (t.enter i pairs cells)[k]? = cells[k]? := by
  induction pairs generalizing i cells with
  | nil => rfl
  | cons pair rest ih =>
    rw [List.map_cons, List.mem_cons, not_or] at hk
    rw [enter, ih hk.2, Array.getElem?_setIfInBounds_ne (Ne.symm hk.1)]

/-- Pairs that have different cells are numbered one after the other. -/
theorem getElem?_enter (hin : ∀ x ∈ pairs, t.cell x < cells.size)
    (hnodup : (pairs.map t.cell).Nodup) (hj : pairs[j]? = some dr) :
    (t.enter i pairs cells)[t.cell dr]? = some ((i + j : Nat) : Int) := by
  induction pairs generalizing i j cells with
  | nil => exact absurd hj (by simp)
  | cons pair rest ih =>
    obtain ⟨hpair, hrest⟩ := List.forall_mem_cons.1 hin
    rw [List.map_cons, List.nodup_cons] at hnodup
    rw [enter]
    cases j with
    | zero =>
      obtain rfl : pair = dr := by simpa using hj
      rw [getElem?_enter_of_not_mem hnodup.1, Array.getElem?_setIfInBounds_self_of_lt hpair]
      rfl
    | succ j =>
      rw [ih (by simpa using hrest) hnodup.2 (by simpa using hj), Nat.add_right_comm, Nat.add_assoc]

/-- What stands in a cell was there, or is one of the numbers. -/
theorem mem_enter {x : Int} (hx : x ∈ t.enter i pairs cells) :
    x ∈ cells ∨ (i : Int) ≤ x ∧ x < i + pairs.length := by
  induction pairs generalizing i cells with
  | nil => exact Or.inl hx
  | cons pair rest ih =>
    rw [List.length_cons]
    rcases ih hx with hcell | hnumber
    · rcases Array.mem_or_eq_of_mem_setIfInBounds hcell with hold | rfl
      · exact Or.inl hold
      · right
        omega
    · right
      omega

theorem nodup_cells (t : PairTable) : (t.coupling.legalPairs.map t.cell).Nodup := by
  refine t.coupling.nodup_legalPairs.map_on fun x hx y hy heq => ?_
  exact (cell_eq_iff (Coupling.mem_legalPairs.1 hx) (Coupling.mem_legalPairs.1 hy)).1 heq

theorem size_numbers (t : PairTable) :
    t.numbers.size = t.coupling.numDestroy * t.coupling.numRepair := by
  rw [numbers, size_enter, Array.size_replicate]

/-- Every cell holds the mark or a number. -/
theorem mem_numbers {x : Int} (hx : x ∈ t.numbers) : x = -1 ∨ 0 ≤ x ∧ x < t.size := by
  rcases mem_enter hx with hold | hnumber
  · exact Or.inl (Array.eq_of_mem_replicate hold)
  · rw [Array.length_toList] at hnumber
    exact Or.inr ⟨by omega, by rw [size]; omega⟩

/-- The cell of a legal pair holds its number ... -/
theorem getElem?_numbers (t : PairTable) (h : t.pair? i = some dr) :
    t.numbers[t.cell dr]? = some (i : Int) := by
  rw [t.pair?_eq] at h
  rw [numbers, t.pairs_eq, List.toList_toArray]
  have hin : ∀ x ∈ t.coupling.legalPairs, t.cell x
      < (Array.replicate (t.coupling.numDestroy * t.coupling.numRepair) (-1 : Int)).size := by
    intro x hx
    rw [Array.size_replicate]
    exact cell_lt_of_allows (Coupling.mem_legalPairs.1 hx)
  rw [getElem?_enter hin t.nodup_cells h, Nat.zero_add]

/-- ... and that of any other pair inside the matrix is marked. -/
theorem getElem?_numbers_of_not_allows (t : PairTable) {d r : Nat} (hd : d < t.coupling.numDestroy)
    (hr : r < t.coupling.numRepair) (h : t.coupling.allows d r = false) :
    t.numbers[t.cell (d, r)]? = some (-1) := by
  have hother : t.cell (d, r) ∉ t.coupling.legalPairs.map t.cell := by
    intro hmem
    obtain ⟨x, hx, hcell⟩ := List.mem_map.1 hmem
    have hallow := Coupling.mem_legalPairs.1 hx
    rw [cell_inj (Coupling.lt_of_allows hallow).2 hr hcell, h] at hallow
    exact Bool.false_ne_true hallow
  rw [numbers, t.pairs_eq, List.toList_toArray, getElem?_enter_of_not_mem hother,
    Array.getElem?_replicate, if_pos (cell_lt hd hr)]

end PairTable

end LargeNeighbourhood
