/-
# Which repair operator may follow which destroy operator

A coupling is a matrix of marks, one row for each destroy operator and one column for each repair
operator, kept row by row in one array.  `allows` reads it as a relation, and so do the views that
check their indices.  The list of the legal pairs and the search for a destroy operator without a
partner go over the cells of the array themselves; what they find are marks of the relation
(`cell_eq`).

A usable coupling has rows and columns and no empty row.  `require` is the check that hands its
success on as a proof: a scheme that holds it can pick a legal pair without asking again.
-/
import LargeNeighbourhood.Fault

namespace LargeNeighbourhood

/-- Marks for `numDestroy` rows and `numRepair` columns, row by row. -/
structure Coupling where
  numDestroy : Nat
  numRepair : Nat
  cells : Array Bool
  size_cells : cells.size = numDestroy * numRepair
  deriving DecidableEq

/-- A destroy operator and a repair operator by their indices; nothing is promised about them. -/
structure Pair where
  destroy : Int
  repair : Int
  deriving DecidableEq, Repr, Inhabited

namespace Pair

/-- The pair of two natural indices. -/
def ofNat (p : Nat × Nat) : Pair := ⟨p.1, p.2⟩

end Pair

namespace Coupling

variable {K : Type}

/-! ## 1. Making one -/

/-- The matrix of a rule. -/
def ofRule (numDestroy numRepair : Nat) (rule : Nat → Nat → Bool) : Coupling where
  numDestroy := numDestroy
  numRepair := numRepair
  cells := Array.ofFn fun k : Fin (numDestroy * numRepair) =>
    rule (k.val / numRepair) (k.val % numRepair)
  size_cells := Array.size_ofFn

/-- Every pair is legal. -/
def all (numDestroy numRepair : Nat) : Coupling := ofRule numDestroy numRepair fun _ _ => true

/-- No pair is legal. -/
def none (numDestroy numRepair : Nat) : Coupling := ofRule numDestroy numRepair fun _ _ => false

instance : Inhabited Coupling := ⟨none 0 0⟩

theorem size_flatten_of_forall (n : Nat) (rows : List (List Bool))
    (h : ∀ row ∈ rows, row.length = n) : rows.flatten.toArray.size = rows.length * n := by
  induction rows with
  | nil => simp
  | cons row rest ih =>
    have hr := h row (by simp)
    have ht := ih fun r hr => h r (by simp [hr])
    simp only [List.size_toArray] at ht
    simp only [List.flatten_cons, List.size_toArray, List.length_append, List.length_cons, ht, hr,
      Nat.succ_mul]
    omega

/-- The number of columns of a list of rows: the length of the first. -/
def width (rows : List (List Bool)) : Nat := (rows.head?.map List.length).getD 0

/-- The matrix with the given rows, which must be equally long. -/
def ofRows (rows : List (List Bool)) : Except (Fault K) Coupling :=
  if h : ∀ row ∈ rows, row.length = width rows then
    .ok ⟨rows.length, width rows, rows.flatten.toArray, size_flatten_of_forall _ rows h⟩
  else .error .raggedRows

/-! ## 2. Single marks -/

theorem index_lt {c : Coupling} {d r : Nat} (h : d < c.numDestroy ∧ r < c.numRepair) :
    d * c.numRepair + r < c.cells.size := by
  rw [c.size_cells]
  calc
    d * c.numRepair + r < (d + 1) * c.numRepair := by rw [Nat.succ_mul]; omega
    _ ≤ c.numDestroy * c.numRepair := Nat.mul_le_mul_right _ h.1

/-- The pair is inside the matrix and marked. -/
def allows (c : Coupling) (d r : Nat) : Bool :=
  if h : d < c.numDestroy ∧ r < c.numRepair then
    have := index_lt h
    c.cells[d * c.numRepair + r]
  else false

/-- The mark of a pair inside the matrix. -/
def mark (c : Coupling) (d r : Nat) : Except (Fault K) Bool :=
  if d < c.numDestroy ∧ r < c.numRepair then .ok (c.allows d r) else .error (.couplingIndex d r)

/-- Sets the mark of a pair inside the matrix. -/
def set (c : Coupling) (d r : Nat) (coupled : Bool) : Except (Fault K) Coupling :=
  if h : d < c.numDestroy ∧ r < c.numRepair then
    .ok { c with
      cells := c.cells.set (d * c.numRepair + r) coupled (index_lt h)
      size_cells := by rw [Array.size_set]; exact c.size_cells }
  else .error (.couplingIndex d r)

/-! ## 3. Views -/

/-- The repair operators that may follow a destroy operator, ascending. -/
def partners (c : Coupling) (d : Nat) : List Nat := (List.range c.numRepair).filter (c.allows d)

/-- The same for a row that exists.  Of any other row it is the first mark, if there are columns,
that is out of range. -/
def coupledRepair (c : Coupling) (d : Nat) : Except (Fault K) (List Nat) :=
  if d < c.numDestroy ∨ c.numRepair = 0 then .ok (c.partners d) else .error (.couplingIndex d 0)

/-- What the cell of a pair inside the matrix holds.  Whether the pair is inside is not asked. -/
def cell (c : Coupling) (d r : Nat) : Bool := c.cells[d * c.numRepair + r]?.getD false

theorem cell_eq {c : Coupling} {d r : Nat} (h : d < c.numDestroy ∧ r < c.numRepair) :
    c.cell d r = c.allows d r := by
  rw [cell, allows, dif_pos h, Array.getElem?_eq_getElem (index_lt h), Option.getD_some]

/-- All legal pairs, row by row: those with a marked cell. -/
def legalPairs (c : Coupling) : List (Nat × Nat) :=
  (List.range c.numDestroy).flatMap fun d =>
    (List.range c.numRepair).filterMap fun r => if c.cell d r then some (d, r) else Option.none

/-- The rows as lists of marks. -/
def rows (c : Coupling) : List (List Bool) :=
  (List.range c.numDestroy).map fun d => (List.range c.numRepair).map (c.allows d)

/-- The pair of natural indices behind a pair, if it is legal. -/
def legal? (c : Coupling) (p : Pair) : Option (Nat × Nat) :=
  match p.destroy, p.repair with
  | .ofNat d, .ofNat r => if c.allows d r then some (d, r) else Option.none
  | _, _ => Option.none

/-! ## 4. Usable couplings -/

/-- There are operators of both kinds, and each destroy operator has a partner. -/
structure Usable (c : Coupling) : Prop where
  destroy_pos : 0 < c.numDestroy
  repair_pos : 0 < c.numRepair
  partners_ne_nil : ∀ d < c.numDestroy, c.partners d ≠ []

/-- The first destroy operator whose row has no marked cell. -/
def uncoupled? (c : Coupling) : Option Nat :=
  (List.range c.numDestroy).find? fun d => !(List.range c.numRepair).any (c.cell d)

theorem usable_of_uncoupled? {c : Coupling} (hd : 0 < c.numDestroy) (hr : 0 < c.numRepair)
    (h : c.uncoupled? = Option.none) : c.Usable where
  destroy_pos := hd
  repair_pos := hr
  partners_ne_nil := fun d hlt => by
    have hrow := List.find?_eq_none.1 h d (List.mem_range.2 hlt)
    rw [Bool.not_eq_true, Bool.not_eq_false', List.any_eq_true] at hrow
    obtain ⟨r, hr, hcell⟩ := hrow
    rw [cell_eq ⟨hlt, List.mem_range.1 hr⟩] at hcell
    exact List.ne_nil_of_mem (List.mem_filter.2 ⟨hr, hcell⟩)

/-- Checks that a coupling is usable and hands it on with the proof. -/
def require (c : Coupling) : Except (Fault K) { c : Coupling // c.Usable } :=
  if hz : 0 < c.numDestroy ∧ 0 < c.numRepair then
    match h : c.uncoupled? with
    | some d => .error (.uncoupledDestroy d)
    | Option.none => .ok ⟨c, usable_of_uncoupled? hz.1 hz.2 h⟩
  else .error .missingOperators

/-- Checks that a coupling is usable. -/
def validate (c : Coupling) : Except (Fault K) Unit := do
  let _ ← c.require

/-- Checks that a coupling has the given shape. -/
def validateShape (c : Coupling) (numDestroy numRepair : Nat) : Except (Fault K) Unit :=
  if c.numDestroy = numDestroy ∧ c.numRepair = numRepair then .ok ()
  else .error (.couplingShape c.numDestroy c.numRepair numDestroy numRepair)

/-- A usable coupling has a legal pair. -/
theorem legalPairs_ne_nil {c : Coupling} (h : c.Usable) : c.legalPairs ≠ [] := by
  obtain ⟨r, hr⟩ := List.exists_mem_of_ne_nil _ (h.partners_ne_nil 0 h.destroy_pos)
  obtain ⟨hlt, hmarked⟩ := List.mem_filter.1 hr
  rw [← cell_eq ⟨h.destroy_pos, List.mem_range.1 hlt⟩] at hmarked
  exact List.ne_nil_of_mem (a := (0, r)) (List.mem_flatMap.2 ⟨0, List.mem_range.2 h.destroy_pos,
    List.mem_filterMap.2 ⟨r, hlt, if_pos hmarked⟩⟩)

end Coupling

end LargeNeighbourhood
