import FlightFit.Decimal.Basic

/-!
Module: FlightFit.Decimal.Reader
Purpose: Reading a floating-point literal: an optional sign, then either digits with an optional point
  and an optional exponent, or one of the words for infinity and "not a number" in any case.
Main exports: digitRun, LiteralFault, readFloat
-/

namespace FlightFit

/-- Whether a character is a decimal digit. -/
def isDigit (c : Char) : Bool := '0' ≤ c && c ≤ '9'

/-- The value of a digit character. -/
def digitValue (c : Char) : Nat := c.toNat - 48

/-- Reads the digits at the front of a text onto `value`, counting them. -/
def digitRun (value count : Nat) : List Char → Nat × Nat × List Char
  | [] => (value, count, [])
  | c :: cs =>
    if isDigit c then digitRun (value * 10 + digitValue c) (count + 1) cs
    else (value, count, c :: cs)

/-- Why a text is no floating-point literal. -/
inductive LiteralFault where
  | empty
  | invalid
deriving DecidableEq, Repr

/-- The wording of a literal fault. -/
def LiteralFault.message : LiteralFault → String
  | .empty => "cannot parse float from empty string"
  | .invalid => "invalid float literal"

/-- Splits a sign off the front of a text. -/
def splitSign : List Char → Bool × List Char
  | '-' :: cs => (true, cs)
  | '+' :: cs => (false, cs)
  | cs => (false, cs)

/-- Reads an exponent part to the end of the text. -/
def readExponent : List Char → Option Int
  | [] => some 0
  | c :: cs =>
    if c == 'e' || c == 'E' then
      let (negative, body) := splitSign cs
      match digitRun 0 0 body with
      | (value, count, []) =>
        if count = 0 then none else some (if negative then -(value : Int) else value)
      | _ => none
    else none

/-- Reads an unsigned decimal literal: at least one digit, before or after the point. -/
def readMagnitude (cs : List Char) : Option (Nat × Int) :=
  let (whole, wholeCount, rest) := digitRun 0 0 cs
  let (digits, places, rest) := match rest with
    | '.' :: tail => digitRun whole 0 tail
    | _ => (whole, 0, rest)
  if wholeCount + places = 0 then none
  else (readExponent rest).map fun e => (digits, e - places)

/-- The double denoted by a literal without sign. -/
def readUnsigned (negative : Bool) (cs : List Char) : Except LiteralFault Float :=
  match readMagnitude cs with
  | some (digits, exponent) => .ok (Decimal.toFloat ⟨negative, digits, exponent⟩)
  | none =>
    let word := String.ofList (cs.map Char.toLower)
    if word = "inf" || word = "infinity" then .ok (Binary.toFloat (.infinite negative))
    else if word = "nan" then .ok (Binary.toFloat .undefined)
    else .error .invalid

/-- Reads a floating-point literal. -/
def readFloat (text : String) : Except LiteralFault Float :=
  match text.toList with
  | [] => .error .empty
  | cs =>
    let (negative, body) := splitSign cs
    readUnsigned negative body

end FlightFit
