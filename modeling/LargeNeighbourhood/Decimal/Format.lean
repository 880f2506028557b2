/-
# Two ways to write a float

`fixed` writes a given number of places after the point.  `general` writes six significant digits
and no trailing zeros, with a point as long as the power of ten of the first digit lies between
-4 and 5 and with an exponent of at least two digits beyond.  Both round once, to the nearest
digit, a half to the even one.  A NaN has no sign.
-/
import LargeNeighbourhood.Decimal.Reading

namespace LargeNeighbourhood.Decimal

/-- The sign in front of a magnitude. -/
def signed (negative : Bool) (text : String) : String := if negative then "-" ++ text else text

/-- Zeros in front until the text has the given length. -/
def padded (length n : Nat) : List Char :=
  let ds := Nat.toDigits 10 n
  List.replicate (length - ds.length) '0' ++ ds

/-- The digits of a number with a point before the last `places`, or none if there are none. -/
def pointed (places n : Nat) : String :=
  let ds := padded (places + 1) n
  let whole := String.ofList (ds.take (ds.length - places))
  if places = 0 then whole else whole ++ "." ++ String.ofList (ds.drop (ds.length - places))

/-- A float with a fixed number of places. -/
def fixed (places : Nat) (x : Float) : String :=
  match Reading.ofFloat x with
  | .nan => "nan"
  | .infinite negative => signed negative "inf"
  | .finite negative m e =>
    signed negative (pointed places ((Quotient.ofBinary m e).scale places).round)

/-- Significant digits of the general form. -/
def precision : Nat := 6

/-- The leading digits of a positive quotient and the power of ten of the first one. -/
def leading (q : Quotient) : Nat × Int :=
  let power := q.magnitude
  let n := (q.scale ((precision : Int) - 1 - power)).round
  if n = Nat.pow 10 precision then (Nat.pow 10 (precision - 1), power + 1) else (n, power)

/-- Removes zeros at the end of a number of places, at most all of them. -/
def trimmed : Nat → Nat → Nat × Nat
  | 0, n => (0, n)
  | places + 1, n => if n % 10 = 0 then trimmed places (n / 10) else (places + 1, n)

/-- An exponent: a sign and at least two digits. -/
def exponentText (power : Int) : String :=
  "e" ++ (if power < 0 then "-" else "+") ++ String.ofList (padded 2 power.natAbs)

/-- A positive quotient in the general form. -/
def generalQuotient (q : Quotient) : String :=
  let (n, power) := leading q
  if power < -4 ∨ (precision : Int) ≤ power then
    let (places, n) := trimmed (precision - 1) n
    pointed places n ++ exponentText power
  else
    let (places, n) := trimmed ((precision : Int) - 1 - power).toNat n
    pointed places n

/-- A float in the general form. -/
def general (x : Float) : String :=
  match Reading.ofFloat x with
  | .nan => "nan"
  | .infinite negative => signed negative "inf"
  | .finite negative 0 _ => signed negative "0"
  | .finite negative m e => signed negative (generalQuotient (Quotient.ofBinary m e))

end LargeNeighbourhood.Decimal
