/-
# The relation behind a coupling

All views of a coupling are views of the relation `allows`: its partners, its legal pairs and the
indices behind a legal pair.  Those that go over the cells of the array say the same as if they had
asked for the partners (`legalPairs_eq`, `uncoupled?_eq`).  The relation holds inside the matrix
only, the matrix of a rule is the rule there, the legal pairs are listed row by row, and one edit
changes one mark.
-/
import LargeNeighbourhood.Coupling
import Mathlib.Data.List.Basic
import Mathlib.Data.List.Find

namespace LargeNeighbourhood

/-- A pair of indices keeps its indices. -/
theorem Pair.ofNat_injective {dr x : Nat × Nat} (h : Pair.ofNat dr = Pair.ofNat x) : dr = x := by
  simp only [Pair.ofNat, Pair.mk.injEq, Int.natCast_inj] at h
  exact Prod.ext h.1 h.2

namespace Coupling

variable {K : Type} {c : Coupling} {d r : Nat}

/-! ## 1. Marks -/

/-- A permitted pair lies inside the matrix. -/
theorem lt_of_allows (h : c.allows d r = true) : d < c.numDestroy ∧ r < c.numRepair := by
  unfold allows at h
  split at h
  · assumption
  · exact absurd h (by simp)

/-- The row of a cell ... -/
theorem cell_div {n : Nat} (hr : r < n) : (d * n + r) / n = d := by
  rw [Nat.mul_comm, Nat.mul_add_div (by omega), Nat.div_eq_of_lt hr, Nat.add_zero]

/-- ... and its column. -/
theorem cell_mod {n : Nat} (hr : r < n) : (d * n + r) % n = r := by
  rw [Nat.mul_comm, Nat.mul_add_mod, Nat.mod_eq_of_lt hr]

/-- Two pairs inside a matrix have different cells. -/
theorem cell_inj {n i j : Nat} (hr : r < n) (hj : j < n) :
    d * n + r = i * n + j ↔ d = i ∧ r = j := by
  constructor
  · intro h
    refine ⟨?_, ?_⟩
    · rw [← cell_div (d := d) hr, h, cell_div hj]
    · rw [← cell_mod (d := d) hr, h, cell_mod hj]
  · rintro ⟨rfl, rfl⟩
    rfl

/-- Inside the matrix of a rule the rule decides. -/
theorem allows_ofRule {m n : Nat} {rule : Nat → Nat → Bool} (hd : d < m) (hr : r < n) :
    (ofRule m n rule).allows d r = rule d r := by
  unfold allows
  rw [dif_pos ⟨hd, hr⟩]
  simp only [ofRule, Array.getElem_ofFn, cell_div hr, cell_mod hr]

theorem allows_ofRule_iff {m n : Nat} {rule : Nat → Nat → Bool} :
    (ofRule m n rule).allows d r = true ↔ d < m ∧ r < n ∧ rule d r = true := by
  constructor
  · intro h
    obtain ⟨hd, hr⟩ : d < m ∧ r < n := lt_of_allows h
    rw [allows_ofRule hd hr] at h
    exact ⟨hd, hr, h⟩
  · rintro ⟨hd, hr, h⟩
    rw [allows_ofRule hd hr, h]

/-- A cell of the array belongs to a pair inside the matrix. -/
theorem inside_of_lt {k : Nat} (h : k < c.numDestroy * c.numRepair) :
    k / c.numRepair < c.numDestroy ∧ k % c.numRepair < c.numRepair := by
  have hpos : 0 < c.numRepair := Nat.pos_of_mul_pos_left (Nat.zero_lt_of_lt h)
  exact ⟨Nat.div_lt_of_lt_mul (by rwa [Nat.mul_comm]), Nat.mod_lt _ hpos⟩

/-- The cell of a pair inside the matrix holds its mark. -/
theorem getElem?_cells (h : d < c.numDestroy ∧ r < c.numRepair) :
    c.cells[d * c.numRepair + r]? = some (c.allows d r) := by
  rw [Array.getElem?_eq_getElem (index_lt h), allows, dif_pos h]

/-- **The array is the marks, row by row.** -/
theorem cells_eq (c : Coupling) : c.cells.toList =
    (List.range (c.numDestroy * c.numRepair)).map
      fun k => c.allows (k / c.numRepair) (k % c.numRepair) := by
  refine List.ext_getElem? fun k => ?_
  rw [Array.getElem?_toList, List.getElem?_map]
  by_cases hk : k < c.numDestroy * c.numRepair
  · have hmark := getElem?_cells (inside_of_lt hk)
    rw [Nat.div_add_mod'] at hmark
    rw [hmark, List.getElem?_range hk, Option.map_some]
  · rw [Array.getElem?_eq_none (by rw [c.size_cells]; omega),
      List.getElem?_eq_none (by rw [List.length_range]; omega), Option.map_none]

/-- Matrices of one shape with the same marks are the same. -/
theorem eq_iff_allows {t : Coupling} :
    c = t ↔ c.numDestroy = t.numDestroy ∧ c.numRepair = t.numRepair ∧
      ∀ d < c.numDestroy, ∀ r < c.numRepair, c.allows d r = t.allows d r := by
  constructor
  · rintro rfl
    exact ⟨rfl, rfl, fun _ _ _ _ => rfl⟩
  · rintro ⟨hd, hr, hmarks⟩
    have hcells : c.cells.toList = t.cells.toList := by
      rw [c.cells_eq, t.cells_eq, ← hd, ← hr]
      refine List.map_congr_left fun k hk => ?_
      obtain ⟨hrow, hcolumn⟩ := inside_of_lt (List.mem_range.1 hk)
      exact hmarks _ hrow _ hcolumn
    obtain ⟨m, n, cells, size⟩ := c
    obtain ⟨m', n', cells', size'⟩ := t
    obtain rfl : m = m' := hd
    obtain rfl : n = n' := hr
    obtain rfl : cells = cells' := Array.toList_inj.1 hcells
    rfl

/-! ## 2. Views -/

theorem mem_partners : r ∈ c.partners d ↔ c.allows d r = true := by
  simp only [partners, List.mem_filter, List.mem_range, and_iff_right_iff_imp]
  exact fun h => (lt_of_allows h).2

/-- **The marked cells of a row are the partners of its destroy operator.** -/
theorem filter_cell (h : d < c.numDestroy) :
    (List.range c.numRepair).filter (c.cell d) = c.partners d :=
  List.filter_congr fun _ hr => cell_eq ⟨h, List.mem_range.1 hr⟩

theorem legalPairs_eq (c : Coupling) : c.legalPairs =
    (List.range c.numDestroy).flatMap fun d => (c.partners d).map fun r => (d, r) := by
  refine List.flatMap_congr fun d hd => ?_
  rw [← filter_cell (List.mem_range.1 hd), ← List.filterMap_eq_map, ← List.filterMap_eq_filter,
    List.filterMap_filterMap]
  refine List.filterMap_congr fun r _ => ?_
  cases h : c.cell d r with
  | true => simp [Option.guard, h]
  | false => simp [Option.guard, h]

theorem uncoupled?_eq (c : Coupling) :
    c.uncoupled? = (List.range c.numDestroy).find? fun d => (c.partners d).isEmpty := by
  refine List.find?_congr fun d hd => ?_
  rw [← filter_cell (List.mem_range.1 hd), Bool.eq_iff_iff, Bool.not_eq_true', List.any_eq_false,
    List.isEmpty_iff, List.filter_eq_nil_iff]

theorem mem_legalPairs {dr : Nat × Nat} : dr ∈ c.legalPairs ↔ c.allows dr.1 dr.2 = true := by
  simp only [legalPairs_eq, List.mem_flatMap, List.mem_range, List.mem_map, mem_partners]
  constructor
  · rintro ⟨d, -, r, h, rfl⟩
    exact h
  · intro h
    exact ⟨dr.1, (lt_of_allows h).1, dr.2, h, rfl⟩

/-- The pair behind a legal pair of indices is permitted. -/
theorem legal?_eq_some {p : Pair} {dr : Nat × Nat} (h : c.legal? p = some dr) :
    p = Pair.ofNat dr ∧ c.allows dr.1 dr.2 = true := by
  obtain ⟨d, r⟩ := p
  unfold legal? at h
  split at h
  · rename_i i j hi hj
    simp only at hi hj
    split at h
    · rename_i ha
      cases h
      exact ⟨by rw [hi, hj]; rfl, ha⟩
    · exact absurd h (by simp)
  · exact absurd h (by simp)

/-- A permitted pair of indices is legal. -/
theorem legal?_ofNat {dr : Nat × Nat} (h : c.allows dr.1 dr.2 = true) :
    c.legal? (Pair.ofNat dr) = some dr := by
  simp [legal?, Pair.ofNat, h]

/-- A destroy operator has a partner if some pair with it is permitted. -/
theorem partners_ne_nil_iff : c.partners d ≠ [] ↔ ∃ r, c.allows d r = true := by
  constructor
  · intro h
    obtain ⟨r, hr⟩ := List.exists_mem_of_ne_nil _ h
    exact ⟨r, mem_partners.1 hr⟩
  · rintro ⟨r, hr⟩
    exact List.ne_nil_of_mem (mem_partners.2 hr)

/-- Row by row: in an earlier row, or earlier in the same row. -/
def Earlier (a b : Nat × Nat) : Prop := a.1 < b.1 ∨ (a.1 = b.1 ∧ a.2 < b.2)

theorem Earlier.asymm {a b : Nat × Nat} (h : Earlier a b) : ¬Earlier b a := by
  unfold Earlier at *
  omega

/-- The legal pairs are listed row by row. -/
theorem pairwise_legalPairs (c : Coupling) : c.legalPairs.Pairwise Earlier := by
  rw [legalPairs_eq, List.pairwise_flatMap]
  constructor
  · intro d _
    rw [List.pairwise_map]
    exact (List.pairwise_lt_range.filter _).imp fun h => Or.inr ⟨rfl, h⟩
  · refine List.pairwise_lt_range.imp fun {d d'} hlt x hx y hy => ?_
    obtain ⟨r, -, rfl⟩ := List.mem_map.1 hx
    obtain ⟨r', -, rfl⟩ := List.mem_map.1 hy
    exact Or.inl hlt

theorem nodup_legalPairs (c : Coupling) : c.legalPairs.Nodup := by
  refine c.pairwise_legalPairs.imp fun {a b} hlt heq => ?_
  rw [heq] at hlt
  rcases hlt with hlt | ⟨-, hlt⟩ <;> exact Nat.lt_irrefl _ hlt

theorem uncoupled?_eq_none_iff :
    c.uncoupled? = Option.none ↔ ∀ d < c.numDestroy, ∃ r, c.allows d r = true := by
  rw [uncoupled?_eq, List.find?_eq_none]
  constructor
  · intro h d hd
    have hne := h d (List.mem_range.2 hd)
    rw [List.isEmpty_iff] at hne
    exact partners_ne_nil_iff.1 hne
  · intro h d hd
    have hne := partners_ne_nil_iff.2 (h d (List.mem_range.1 hd))
    rw [List.isEmpty_iff]
    exact hne

/-- The mark of a pair inside the matrix. -/
theorem mark_eq (h : d < c.numDestroy ∧ r < c.numRepair) :
    (c.mark d r : Except (Fault K) Bool) = .ok (c.allows d r) :=
  if_pos h

/-! ## 3. Usable couplings -/

/-- The first destroy operator of a usable coupling has a partner. -/
theorem Usable.exists_allows (h : c.Usable) : ∃ d r, c.allows d r = true := by
  obtain ⟨r, hr⟩ := List.exists_mem_of_ne_nil _ (h.partners_ne_nil 0 h.destroy_pos)
  exact ⟨0, r, mem_partners.1 hr⟩

/-- A coupling that is handed on with the proof that it is usable is handed on unchanged. -/
theorem require_ok {u : { c : Coupling // c.Usable }}
    (h : (c.require : Except (Fault K) _) = .ok u) : u.val = c := by
  unfold require at h
  split at h
  · split at h
    · exact absurd h (by simp)
    · cases h
      rfl
  · exact absurd h (by simp)

/-! ## 4. Edits -/

/-- An edit keeps the shape of a coupling. -/
theorem shape_set {t : Coupling} {coupled : Bool}
    (h : (c.set d r coupled : Except (Fault K) Coupling) = .ok t) :
    t.numDestroy = c.numDestroy ∧ t.numRepair = c.numRepair := by
  unfold set at h
  split at h
  · cases h
    exact ⟨rfl, rfl⟩
  · exact absurd h (by simp)

/-- An edit inside the matrix is made. -/
theorem exists_set (h : d < c.numDestroy ∧ r < c.numRepair) (coupled : Bool) :
    ∃ t, (c.set d r coupled : Except (Fault K) Coupling) = .ok t :=
  ⟨_, dif_pos h⟩

/-- **An edit changes one mark.** -/
theorem allows_of_set {t : Coupling} {coupled : Bool}
    (h : (c.set d r coupled : Except (Fault K) Coupling) = .ok t) (i j : Nat) :
    t.allows i j = if i = d ∧ j = r then coupled else c.allows i j := by
  unfold set at h
  split at h
  · rename_i hin
    cases h
    unfold allows
    by_cases hij : i < c.numDestroy ∧ j < c.numRepair
    · rw [dif_pos hij, dif_pos hij]
      simp only [Array.getElem_set, cell_inj hin.2 hij.2, eq_comm (a := d), eq_comm (a := r)]
    · have hne : ¬(i = d ∧ j = r) := by
        rintro ⟨rfl, rfl⟩
        exact hij hin
      rw [dif_neg hij, dif_neg hij, if_neg hne]
  · exact absurd h (by simp)

end Coupling

end LargeNeighbourhood
