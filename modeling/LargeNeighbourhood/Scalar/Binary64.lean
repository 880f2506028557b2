/-
# Binary64 as the number type of a running search

The instances a program runs with.  Nothing is added to the operations of `Float`: a NaN is
below, above and equal to nothing, and every operation rounds once.
-/
import LargeNeighbourhood.Scalar

namespace LargeNeighbourhood

instance : Scalar Float where
  zero := 0
  one := 1
  natCast := Float.ofNat
  add := Float.add
  sub := Float.sub
  mul := Float.mul
  div := Float.div
  neg := Float.neg
  lt := (· < ·)
  le := (· ≤ ·)
  decidableLT := inferInstance
  decidableLE := inferInstance

instance : Elementary Float where
  exp := Float.exp
  log := Float.log
  sqrt := Float.sqrt
  pow := Float.pow

end LargeNeighbourhood
