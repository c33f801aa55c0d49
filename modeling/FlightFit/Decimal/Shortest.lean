import FlightFit.Decimal.Basic

/-!
Module: FlightFit.Decimal.Shortest
Purpose: The fewest decimal digits that read back as a given double. On the grid of all decimals with
  a given number of digits, the two neighbours of the exact value are read back, the nearer one first.
  Seventeen digits are enough; from there, grids with fewer digits are tried until one has no neighbour
  that reads back. A coarser grid is part of a finer one, so no coarser grid has one either.
Main exports: shortest
-/

namespace FlightFit

/-- The nearer of the neighbours `low` and `low + 1` if it reads back, otherwise the other one if that
    reads back. Nothing reads back that is farther off than the distance between two doubles, which is
    the value divided by its significand. -/
def pickNeighbour (tie : Tie) (code : Nat) (exponent : Int) (num den : Nat) : Option Nat :=
  let low := num / den
  let rest := num % den
  let raised := tie.raises low (2 * rest) den
  let near := if raised then low + 1 else low
  let far := if raised then low else low + 1
  let offset := if raised then den - rest else rest
  if num < offset * BinaryFormat.double.significand code then none
  else if Decimal.code near exponent == code then some near
  else if Decimal.code far exponent == code then some far
  else none

/-- The digits on the grid of `count` digits that read back, if there are any. -/
def onGrid (tie : Tie) (code num den : Nat) (top : Int) (count : Nat) : Option (Nat × Int) :=
  let exponent := top - count
  let scaled := (num * Nat.pow 10 (-exponent).toNat, den * Nat.pow 10 exponent.toNat)
  (pickNeighbour tie code exponent scaled.1 scaled.2).map (·, exponent)

/-- Drops trailing zeros, at most `fuel` of them. -/
def dropZeros : Nat → Nat → Int → Nat × Int
  | 0, digits, exponent => (digits, exponent)
  | fuel + 1, digits, exponent =>
    if digits % 10 = 0 then dropZeros fuel (digits / 10) (exponent + 1) else (digits, exponent)

/-- The digits without trailing zeros. -/
def trimmed (found : Nat × Int) : Nat × Int := dropZeros found.1.log2 found.1 found.2

/-- Goes over to fewer digits as long as there are some that read back, `fuel` times at most. -/
def shorten (tie : Tie) (code num den : Nat) (top : Int) : Nat → Nat × Int → Nat × Int
  | 0, found => found
  | fuel + 1, found =>
    let count := (digitList found.1).length
    if count ≤ 1 then found
    else match onGrid tie code num den top (count - 1) with
      | some shorter => shorten tie code num den top fuel (trimmed shorter)
      | none => found

/-- Every digit of a fraction whose denominator is a power of two. -/
def exactDigits (num den : Nat) : Nat × Int :=
  (num * Nat.pow 5 den.log2, -(den.log2 : Int))

/-- The fewest digits that read back as the double with a given finite code. -/
def shortest (tie : Tie) (code : Nat) : Nat × Int :=
  if code = 0 then (0, 0)
  else
    let (num, den) := BinaryFormat.double.fraction code
    let top := Decimal.magnitude num den
    let found := trimmed ((onGrid tie code num den top 17).getD (exactDigits num den))
    shorten tie code num den top 17 found

end FlightFit
