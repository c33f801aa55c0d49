import FlightFit.Binary

/-!
Module: FlightFit.Decimal.Basic
Purpose: Decimal numbers `± digits · 10^exponent`, their digits as text, and the double each of them
  denotes. The conversion to a double is exact rational arithmetic followed by one rounding.
Main exports: Decimal, Decimal.toFloat, Decimal.code, digitText
-/

namespace FlightFit

/-- A decimal number `± digits · 10^exponent`. -/
structure Decimal where
  negative : Bool
  digits : Nat
  exponent : Int
deriving DecidableEq, Repr

/-- The character of a digit below ten. -/
def digitChar (d : Nat) : Char := Char.ofNat (48 + d)

/-- The decimal digits of `n` in front of `tail`, for `n` below `2^fuel`. -/
def digitsBefore : Nat → Nat → List Char → List Char
  | 0, n, tail => digitChar (n % 10) :: tail
  | fuel + 1, n, tail =>
    if n < 10 then digitChar n :: tail
    else digitsBefore fuel (n / 10) (digitChar (n % 10) :: tail)

/-- The decimal digits of a natural number. -/
def digitList (n : Nat) : List Char := digitsBefore n.log2 n []

/-- A natural number in decimal. -/
def digitText (n : Nat) : String := String.ofList (digitList n)

namespace Decimal

/-- Decimal exponents beyond this reach are past every double. -/
def reach : Int := 400

/-- The code of the double nearest to `digits · 10^exponent`. -/
def code (digits : Nat) (exponent : Int) : Nat :=
  if digits = 0 then 0
  else if reach < exponent then BinaryFormat.double.infinity
  else if exponent + digits.log2 + 1 < -reach then 0
  else BinaryFormat.double.nearest (digits * Nat.pow 10 exponent.toNat) (Nat.pow 10 (-exponent).toNat)

/-- The double nearest to a decimal number. -/
def toFloat (d : Decimal) : Float :=
  Binary.signed d.negative (code d.digits d.exponent)

/-- The power of ten just above a positive fraction: `10^(k-1) ≤ num / den < 10^k`. -/
def magnitude (num den : Nat) : Int :=
  let guess := ((num.log2 : Int) - den.log2) * 30103 / 100000
  let reaches (j : Int) : Bool := den * Nat.pow 10 j.toNat ≤ num * Nat.pow 10 (-j).toNat
  if reaches (guess + 1) then guess + 2
  else if reaches guess then guess + 1
  else guess

end Decimal

end FlightFit
