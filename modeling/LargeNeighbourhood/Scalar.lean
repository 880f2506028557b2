/-
# The numbers a search computes with

Objectives, weights, temperatures and thresholds are all of one type `K`.  The library asks of
it only the operations below and two decidable comparisons, and no law at all: a program
computes with `Float`, whose comparisons are all false at a NaN, while a theorem may take any
ordered field.  What `upper`, `lower` and `magnitude` do at incomparable arguments is therefore
part of their definition and not left to the type.
-/

namespace LargeNeighbourhood

/-- Four operations, the natural numbers, and two decidable comparisons. -/
class Scalar (K : Type) extends
    Zero K, One K, NatCast K, Add K, Sub K, Mul K, Div K, Neg K, LT K, LE K where
  decidableLT : DecidableLT K
  decidableLE : DecidableLE K

attribute [reducible, instance] Scalar.decidableLT Scalar.decidableLE

/-- The transcendental functions that annealing, the great deluge and the confidence bound use. -/
class Elementary (K : Type) where
  exp : K → K
  log : K → K
  sqrt : K → K
  pow : K → K → K

namespace Scalar

variable {K : Type}

/-! ## 1. Choosing between two values -/

section Order

variable [LT K] [DecidableLT K]

/-- The second value if it is strictly above the first, and the first otherwise. -/
def upper (a b : K) : K := if a < b then b else a

/-- The second value if it is strictly below the first, and the first otherwise. -/
def lower (a b : K) : K := if b < a then b else a

/-- The least entry of a window that starts with `a`; of equal ones the first. -/
def least (a : K) (rest : List K) : K := rest.foldl lower a

end Order

/-! ## 2. Derived arithmetic -/

variable [Scalar K]

/-- The absolute value. -/
def magnitude (x : K) : K := if x < 0 then -x else x

/-- A quotient of two natural numbers. -/
def ratio (a b : Nat) : K := (a : K) / (b : K)

/-- An integer as a scalar. -/
def ofInt : Int → K
  | .ofNat n => (n : K)
  | .negSucc n => -((n + 1 : Nat) : K)

/-- The sum from the left, starting at zero. -/
def sum (xs : List K) : K := xs.foldl (· + ·) 0

/-- Neither below nor above: equality as the two comparisons see it. -/
def same (a b : K) : Bool := decide (a ≤ b) && decide (b ≤ a)

/-- Lies between two bounds, both included. -/
def within (low high x : K) : Bool := decide (low ≤ x) && decide (x ≤ high)

end Scalar

end LargeNeighbourhood
