/-
# Operators for packings

Two ways to unpack a few items and two ways to fill up again.  Filling goes through the items in
some order and packs what fits.
-/
import LargeNeighbourhood.Knapsack.Packing
import LargeNeighbourhood.Random.Shuffle
import LargeNeighbourhood.Search.Engine

namespace LargeNeighbourhood.Knapsack

namespace Packing

variable {K : Type} [Scalar K]

/-! ## 1. Unpacking -/

/-- What a unit of weight of the item at an index is worth. -/
def density (p : Packing K) (i : Nat) : K := ((p.problem.items[i]?).map Item.density).getD 0

/-- Unpacks at most three random items.  Nothing is drawn for an empty knapsack. -/
def removeRandom (p : Packing K) : Draw (Packing K) := do
  if p.inside.isEmpty then return p
  let chosen ← Draw.subset 3 p.inside.toArray
  return p.unpack chosen

/-- The packed items, those worth least for their weight first. -/
def worstFirst (p : Packing K) : List Nat :=
  p.inside.mergeSort fun i j => !decide (p.density j < p.density i)

/-- Unpacks one to three of the items that are worth least for their weight. -/
def removeWorst (p : Packing K) : Draw (Packing K) := do
  let k ← Draw.integer 1 3
  return p.unpack (p.worstFirst.take k.toNat)

/-! ## 2. Filling up -/

/-- Packs an item if it is not packed and fits on top of the given weight, which is the weight
packed so far. -/
def insert (state : Packing K × K) (i : Nat) : Packing K × K :=
  let (p, weight) := state
  match p.problem.items[i]?, p.packed[i]? with
  | some item, some false =>
    if weight + item.weight ≤ p.problem.capacity then
      ({ p with packed := p.packed.setIfInBounds i true }, weight + item.weight)
    else state
  | _, _ => state

/-- Goes through the items in the given order and packs what fits. -/
def insertInOrder (p : Packing K) (order : List Nat) : Packing K :=
  (order.foldl insert (p, p.weight)).1

/-- All items, those worth most for their weight first. -/
def bestFirst (p : Packing K) : List Nat :=
  (List.range p.problem.items.size).mergeSort fun i j => !decide (p.density i < p.density j)

/-- Fills up with the items worth most for their weight. -/
def insertGreedy (p : Packing K) : Packing K := p.insertInOrder p.bestFirst

/-- Fills up in random order. -/
def insertRandom (p : Packing K) : Draw (Packing K) := do
  return p.insertInOrder (← Draw.shuffle p.packed.size).toList

end Packing

/-! ## 3. As operators of a search -/

variable {K ω : Type}

/-- A drawing change of packings as an operator. -/
def operator (change : Packing K → Draw (Packing K)) :
    Operator K (Packing K) ω :=
  fun p => some <$> Act.draw (change p)

end LargeNeighbourhood.Knapsack
