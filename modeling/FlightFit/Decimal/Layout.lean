import FlightFit.Decimal.Shortest

/-!
Module: FlightFit.Decimal.Layout
Purpose: The written forms of doubles. A `Layout` says which decimal exponents are written out
  positionally, how a whole number ends, and how an exponent is marked; three layouts are used. Fixed
  places round the exact value.
Main exports: Layout, Layout.render, Layout.plain, Layout.exponential, fixedPlaces
-/

namespace FlightFit

/-- The decisions of a written form of shortest digits. -/
structure Layout where
  /-- The decimal exponents that are written without an exponent part. -/
  positional : Int → Bool
  /-- What ends a whole number written positionally. -/
  wholeEnd : List Char
  /-- What marks a non-negative exponent. -/
  plus : List Char
  /-- Which of two equally near digit strings is written. -/
  tie : Tie

namespace Layout

/-- Never an exponent, and nothing after a whole number. -/
def plain : Layout := ⟨fun _ => true, [], [], .up⟩

/-- Always an exponent, without a plus sign. -/
def exponential : Layout := ⟨fun _ => false, [], [], .up⟩

end Layout

/-- An integer with an optional mark for the non-negative case. -/
def signedText (plus : List Char) (n : Int) : List Char :=
  match n with
  | .ofNat k => plus ++ digitList k
  | .negSucc k => '-' :: digitList (k + 1)

/-- Digits written out with a point at their place. -/
def positionalText (wholeEnd : List Char) (digits : List Char) (exponent : Int) : List Char :=
  match exponent with
  | .ofNat zeros => digits ++ List.replicate zeros '0' ++ wholeEnd
  | .negSucc k =>
    let places := k + 1
    if digits.length ≤ places then
      '0' :: '.' :: (List.replicate (places - digits.length) '0' ++ digits)
    else
      digits.take (digits.length - places) ++ '.' :: digits.drop (digits.length - places)

/-- Digits with a point after the first one and an exponent. -/
def scientificText (plus : List Char) (digits : List Char) (exponent : Int) : List Char :=
  match digits with
  | [] => []
  | d :: more =>
    let tail := if more.isEmpty then [] else '.' :: more
    (d :: tail) ++ 'e' :: signedText plus (exponent + more.length)

/-- The sign of a written number. -/
def minus (negative : Bool) : List Char := if negative then ['-'] else []

namespace Layout

/-- Lays out given digits. -/
def lay (layout : Layout) (digits : Nat) (exponent : Int) : List Char :=
  let text := digitList digits
  if layout.positional (exponent + (text.length - 1 : Nat)) then
    positionalText layout.wholeEnd text exponent
  else scientificText layout.plus text exponent

/-- The written form of a finite value. -/
def finiteText (layout : Layout) (negative : Bool) (code : Nat) : List Char :=
  let (digits, exponent) := shortest layout.tie code
  minus negative ++ layout.lay digits exponent

/-- The written form of a double. -/
def render (layout : Layout) (x : Float) : String :=
  match Binary.ofFloat x with
  | .undefined => "NaN"
  | .infinite negative => String.ofList (minus negative ++ ['i', 'n', 'f'])
  | .finite negative code => String.ofList (layout.finiteText negative code)

end Layout

/-- A double with a fixed number of places: the exact value rounded, ties to even. -/
def fixedPlaces (places : Nat) (x : Float) : String :=
  match Binary.ofFloat x with
  | .undefined => "NaN"
  | .infinite negative => String.ofList (minus negative ++ ['i', 'n', 'f'])
  | .finite negative code =>
    let (num, den) := BinaryFormat.double.fraction code
    let digits := roundDiv .toEven (num * Nat.pow 10 places) den
    String.ofList (minus negative ++ positionalText [] (digitList digits) (-(places : Int)))

end FlightFit
