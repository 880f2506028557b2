/-
# The knapsack problem

Items have a weight and a value, and some of them are packed.  A packing is worth the sum of the
values packed; since a search makes objectives small, the objective is that sum negated.
-/
import LargeNeighbourhood.Random.Draw
import LargeNeighbourhood.Solution

namespace LargeNeighbourhood.Knapsack

/-- An item. -/
structure Item (K : Type) where
  weight : K
  value : K
  deriving Repr

/-- Items and the weight that a packing may have. -/
structure Problem (K : Type) where
  items : Array (Item K)
  capacity : K
  deriving Repr

/-- One flag for each item of a problem. -/
structure Packing (K : Type) where
  problem : Problem K
  packed : Array Bool
  deriving Repr

/-! ## 1. Problems -/

section Problems

variable {K : Type} [Scalar K]

/-- A random item: its weight is between 1 and 10, its value between 1 and 20. -/
def Item.random : Draw (Item K) := do
  let weight ← Draw.uniformIn 1 ((10 : Nat) : K)
  let value ← Draw.uniformIn 1 ((20 : Nat) : K)
  return { weight, value }

/-- A random problem whose capacity is three tenths of the weight of all items. -/
def Problem.random (n : Nat) : Draw (Problem K) := do
  let items ← (List.replicate n ()).mapM fun _ => Item.random
  return {
    items := items.toArray
    capacity := Scalar.ratio 3 10 * Scalar.sum (items.map Item.weight) }

/-- What a unit of weight of an item is worth. -/
def Item.density (i : Item K) : K := i.value / i.weight

end Problems

/-! ## 2. Packings -/

namespace Packing

variable {K : Type}

/-- Nothing is packed. -/
def empty (problem : Problem K) : Packing K :=
  { problem, packed := Array.replicate problem.items.size false }

/-- The item at an index is packed. -/
def holds (p : Packing K) (i : Nat) : Bool := p.packed[i]?.getD false

/-- The packed items. -/
def contents (p : Packing K) : List (Item K) :=
  (p.problem.items.toList.zip p.packed.toList).filterMap fun (item, packed) =>
    if packed then some item else none

/-- The indices of the packed items, ascending. -/
def inside (p : Packing K) : List Nat := (List.range p.packed.size).filter p.holds

/-- The packing without the items at some indices. -/
def unpack (p : Packing K) (indices : List Nat) : Packing K :=
  { p with packed := indices.foldl (fun packed i => packed.setIfInBounds i false) p.packed }

variable [Scalar K]

/-- The value packed. -/
def value (p : Packing K) : K := Scalar.sum (p.contents.map Item.value)

/-- The weight packed. -/
def weight (p : Packing K) : K := Scalar.sum (p.contents.map Item.weight)

instance : Solution K (Packing K) where
  objective := fun p => -p.value

end Packing

end LargeNeighbourhood.Knapsack
