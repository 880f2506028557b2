/-
# Draws

Numbers and choices made from the words of a generator.  A `Draw` always succeeds and leaves the
generator where its words ended; a `Sampling` may also fail, and then leaves it where the words
drawn up to the failure ended.

An index below `n` is a word modulo `n`, and comes with its bound.
-/
import LargeNeighbourhood.Fault
import LargeNeighbourhood.Random.Generator
import LargeNeighbourhood.Scalar

namespace LargeNeighbourhood

/-- A computation that consumes words of a generator. -/
abbrev Draw := StateM Generator

/-- A draw that may fail. -/
abbrev Sampling (K : Type) := ExceptT (Fault K) Draw

/-- Goes on with a value, or fails; nothing is drawn. -/
def Sampling.ofExcept {K α : Type} (r : Except (Fault K) α) : Sampling K α := fun g => (r, g)

namespace Draw

/-- The next word. -/
def word : Draw UInt32 := fun g => g.next

/-- A second generator. -/
def split : Draw Generator := fun g => g.split

/-! ## 1. Indices -/

/-- An index below `n`. -/
def below (n : Nat) (h : 0 < n) : Draw (Fin n) := do
  let w ← word
  return ⟨w.toNat % n, Nat.mod_lt _ h⟩

/-- How many integers lie between two bounds, the bounds included, in either order. -/
def span (a b : Int) : Nat := (max a b - min a b + 1).toNat

/-- An integer between two bounds, the bounds included, in either order. -/
def integer (a b : Int) : Draw Int := do
  let w ← word
  return min a b + ((w.toNat % span a b : Nat) : Int)

/-! ## 2. Fractions -/

variable {K : Type} [Scalar K]

/-- The fraction a word stands for: a multiple of `2⁻³²` from zero to below one. -/
def fraction (w : UInt32) : K := Scalar.ratio w.toNat 4294967296

/-- A fraction. -/
def uniform : Draw K := do
  return fraction (← word)

/-- A fraction stretched to an interval. -/
def uniformIn (low high : K) : Draw K := do
  let u ← uniform
  return low + u * (high - low)

end Draw

end LargeNeighbourhood
