/-!
Module: FlightFit.Binary
Purpose: Binary floating-point numbers as exact quantities. The non-negative values of a format are
  numbered in increasing order by their *codes*: zero is code 0, and the code after the largest finite
  value stands for infinity. A value is then a sign and a code, rounding a fraction means choosing a
  code, and neighbouring codes are neighbouring values.
Main exports: BinaryFormat, BinaryFormat.nearest, Binary, Binary.ofFloat, Binary.toFloat, toSingle
-/

namespace FlightFit

/-- A binary interchange format, given by the widths of its two fields. -/
structure BinaryFormat where
  /-- Stored significand bits. -/
  fractionBits : Nat
  /-- Exponent bits. -/
  exponentBits : Nat
deriving DecidableEq, Repr

namespace BinaryFormat

/-- Double precision. -/
def double : BinaryFormat := ⟨52, 11⟩

/-- Single precision. -/
def single : BinaryFormat := ⟨23, 8⟩

/-- The exponent of the least positive value. -/
def least (f : BinaryFormat) : Int :=
  2 - (Nat.pow 2 (f.exponentBits - 1) : Nat) - f.fractionBits

/-- The code after the largest finite value. -/
def infinity (f : BinaryFormat) : Nat :=
  (Nat.pow 2 f.exponentBits - 1) * Nat.pow 2 f.fractionBits

/-- The integer significand of a code. -/
def significand (f : BinaryFormat) (code : Nat) : Nat :=
  if code < Nat.pow 2 f.fractionBits then code else code % Nat.pow 2 f.fractionBits + Nat.pow 2 f.fractionBits

/-- The power of two that a code's significand is scaled by. -/
def exponent (f : BinaryFormat) (code : Nat) : Int :=
  f.least + (code / Nat.pow 2 f.fractionBits - 1 : Nat)

/-- The value of a finite code as a fraction. -/
def fraction (f : BinaryFormat) (code : Nat) : Nat × Nat :=
  let e := f.exponent code
  (Nat.shiftLeft (f.significand code) e.toNat, Nat.shiftLeft 1 (-e).toNat)

end BinaryFormat

/-- How the middle between two neighbours is rounded. -/
inductive Tie where
  | toEven
  | up
deriving DecidableEq, Repr

/-- Whether `num / den`, known to lie between `low` and `low + 1`, rounds to `low + 1`. -/
def Tie.raises (tie : Tie) (low twiceRest den : Nat) : Bool :=
  if twiceRest < den then false
  else if den < twiceRest then true
  else match tie with
    | .toEven => low % 2 == 1
    | .up => true

/-- The integer nearest to `num / den`. -/
def roundDiv (tie : Tie) (num den : Nat) : Nat :=
  let low := num / den
  if tie.raises low (2 * (num % den)) den then low + 1 else low

namespace BinaryFormat

/-- The exponent at which `num / den` fills the significand, no lower than the format allows. -/
def exponentOf (f : BinaryFormat) (num den : Nat) : Int :=
  let e := (num.log2 : Int) - den.log2 - f.fractionBits
  let filled := Nat.shiftLeft den (e.toNat + f.fractionBits) ≤ Nat.shiftLeft num (-e).toNat
  let e := if filled then e else e - 1
  if e < f.least then f.least else e

/-- The code of the value nearest to `num / den`, ties to the even code; too large a value gives
    infinity. -/
def nearest (f : BinaryFormat) (num den : Nat) : Nat :=
  if num = 0 then 0
  else
    let e := f.exponentOf num den
    let m := roundDiv .toEven (Nat.shiftLeft num (-e).toNat) (Nat.shiftLeft den e.toNat)
    let code := Nat.shiftLeft (e - f.least).toNat f.fractionBits + m
    if f.infinity < code then f.infinity else code

end BinaryFormat

/-- What a double stands for. -/
inductive Binary where
  | undefined
  | infinite (negative : Bool)
  /-- A sign and the code of a finite magnitude. -/
  | finite (negative : Bool) (code : Nat)
deriving DecidableEq, Repr

namespace Binary

/-- The bit that holds the sign of a double. -/
def signBit : Nat := Nat.pow 2 63

/-- Reads a double apart. -/
def ofFloat (x : Float) : Binary :=
  let bits := x.toBits.toNat
  let negative := signBit ≤ bits
  let code := bits % signBit
  if BinaryFormat.double.infinity < code then .undefined
  else if code = BinaryFormat.double.infinity then .infinite negative
  else .finite negative code

/-- The double with a given sign and code. -/
def signed (negative : Bool) (code : Nat) : Float :=
  Float.ofBits (UInt64.ofNat (code + if negative then signBit else 0))

/-- Puts a double together. -/
def toFloat : Binary → Float
  | .undefined => Float.ofBits 0x7FF8000000000000
  | .infinite negative => signed negative BinaryFormat.double.infinity
  | .finite negative code => signed negative code

end Binary

/-- Rounds a double to single precision and widens it again. -/
def toSingle (x : Float) : Float :=
  match Binary.ofFloat x with
  | .finite negative code =>
    let (num, den) := BinaryFormat.double.fraction code
    let narrow := BinaryFormat.single.nearest num den
    if narrow = BinaryFormat.single.infinity then Binary.toFloat (.infinite negative)
    else
      let (num, den) := BinaryFormat.single.fraction narrow
      Binary.signed negative (BinaryFormat.double.nearest num den)
  | _ => x

/-- The integer nearest to a double, halves away from zero; zero for anything below one half. -/
def nearestCount (x : Float) : Nat :=
  match Binary.ofFloat x with
  | .finite false code =>
    let (num, den) := BinaryFormat.double.fraction code
    roundDiv .up num den
  | .infinite false => Nat.pow 2 64 - 1
  | _ => 0

end FlightFit
