/-
# What a binary64 word stands for

A word is a NaN, an infinity, or `± mantissa * 2 ^ exponent` with a natural mantissa.  Everything
that is printed about a float is computed from this reading, in exact arithmetic.
-/

namespace LargeNeighbourhood.Decimal

/-- A float, read exactly. -/
inductive Reading where
  | nan
  | infinite (negative : Bool)
  | finite (negative : Bool) (mantissa : Nat) (exponent : Int)
  deriving DecidableEq, Repr

namespace Reading

/-- How many fractions a word has for one exponent. -/
def fractions : Nat := Nat.pow 2 52

/-- The reading of a word: one sign bit, eleven of exponent, fifty-two of fraction. -/
def ofBits (bits : Nat) : Reading :=
  let negative : Bool := bits / fractions / 2048 % 2 = 1
  let exponent : Nat := bits / fractions % 2048
  let fraction := bits % fractions
  if exponent = 2047 then if fraction = 0 then infinite negative else nan
  else if exponent = 0 then finite negative fraction (-1074)
  else finite negative (fractions + fraction) ((exponent : Int) - 1075)

/-- The reading of a float. -/
def ofFloat (x : Float) : Reading := ofBits x.toBits.toNat

end Reading

/-- A magnitude as a quotient of two natural numbers. -/
structure Quotient where
  num : Nat
  den : Nat
  den_pos : 0 < den
  deriving DecidableEq

namespace Quotient

/-- `mantissa * 2 ^ exponent`. -/
def ofBinary (mantissa : Nat) (exponent : Int) : Quotient :=
  if exponent < 0 then ⟨mantissa, Nat.pow 2 (-exponent).toNat, Nat.pow_pos Nat.two_pos⟩
  else ⟨mantissa * Nat.pow 2 exponent.toNat, 1, Nat.one_pos⟩

/-- The quotient times a power of ten. -/
def scale (q : Quotient) (power : Int) : Quotient :=
  if power < 0 then
    ⟨q.num, q.den * Nat.pow 10 (-power).toNat, Nat.mul_pos q.den_pos (Nat.pow_pos (by decide))⟩
  else ⟨q.num * Nat.pow 10 power.toNat, q.den, q.den_pos⟩

/-- The nearest natural number; a half goes to the even neighbour. -/
def round (q : Quotient) : Nat :=
  let whole := q.num / q.den
  let twice := 2 * (q.num % q.den)
  if twice < q.den then whole
  else if q.den < twice then whole + 1
  else whole + whole % 2

/-- How many decimal digits a number has. -/
def digits (n : Nat) : Nat := (Nat.toDigits 10 n).length

/-- The power of ten at or below a positive quotient. -/
def magnitude (q : Quotient) : Int :=
  if q.den ≤ q.num then (digits (q.num / q.den) : Int) - 1
  else
    let l := digits (q.den / q.num)
    if q.den ≤ q.num * Nat.pow 10 (l - 1) then -((l - 1 : Nat) : Int) else -(l : Int)

end Quotient

end LargeNeighbourhood.Decimal
