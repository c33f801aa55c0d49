import FlightFit.Decimal.Reader

/-!
Module: FlightFit.Json.Basic
Purpose: JSON at two levels. A `Json` tree records what a text says up to its first syntax error, which
  stays in the tree as a mark; a reader that never reaches the mark never sees the error. A `Value` is a
  sound JSON value. What is wrong with a text is either its syntax or the type of something in it.
Main exports: Numeral, Json, Json.intact, Json.Number, Json.Value, Json.valuesAt, Json.Defect
-/

namespace FlightFit

/-- A number as it is written. -/
structure Numeral where
  negative : Bool
  digits : Nat
  exponent : Int
  /-- Written without a point and without an exponent. -/
  whole : Bool
deriving DecidableEq, Repr

/-- What a JSON text says, up to its first syntax error. -/
inductive Json where
  | null
  | bool (value : Bool)
  | number (numeral : Numeral)
  /-- A string; one with an unpaired surrogate has no text. -/
  | string (text : Option String)
  /-- The items of an array; it is closed when its end was reached. -/
  | array (items : List Json) (closed : Bool)
  /-- The members of an object; it is closed when its end was reached. -/
  | object (members : List (Option String × Json)) (closed : Bool)
  /-- No value can be read here. -/
  | broken
deriving Repr, Inhabited

namespace Json

/-- What is wrong with a JSON text. -/
inductive Defect where
  /-- It is not JSON, or holds a number, string or nesting outside the accepted bounds. -/
  | malformed
  /-- It is JSON of another shape than the one asked for. -/
  | mistyped
deriving DecidableEq, Repr

/-- A JSON number: an integer from `-2^63` up to below `2^64`, or a double. -/
inductive Number where
  | whole (n : Int)
  | real (x : Float)
deriving Repr

/-- The double that a number denotes. -/
def Number.toFloat : Number → Float
  | .whole n => Decimal.toFloat ⟨n < 0, n.natAbs, 0⟩
  | .real x => x

/-- A JSON value. -/
inductive Value where
  | null
  | bool (value : Bool)
  | number (value : Number)
  | string (text : String)
  | array (items : List Value)
  | object (members : List (String × Value))
deriving Repr, Inhabited

namespace Value

/-- The double in a value. -/
def float? : Value → Option Float
  | .number n => some n.toFloat
  | _ => none

/-- The truth value in a value. -/
def bool? : Value → Option Bool
  | .bool b => some b
  | _ => none

/-- The texts in a list of values. -/
def textsIn : List Value → Option (List String)
  | [] => some []
  | .string s :: rest => (textsIn rest).map (s :: ·)
  | _ => none

/-- The texts in an array. -/
def texts? : Value → Option (List String)
  | .array items => textsIn items
  | _ => none

end Value

/-- The values of the members with a given key, in order. -/
def valuesAt (key : String) (members : List (String × Value)) : List Value :=
  members.filterMap fun (name, value) => if name == key then some value else none

/-- The integers that a JSON number can hold exactly are below this. -/
def wordLimit : Nat := Nat.pow 2 64

/-- The negative integers that a JSON number can hold exactly go down to this. -/
def negativeLimit : Nat := Nat.pow 2 63

end Json

/-- The double that a numeral denotes, if it is in range. -/
def Numeral.toFloat? (n : Numeral) : Option Float :=
  if Decimal.code n.digits n.exponent < BinaryFormat.double.infinity then
    some (Decimal.toFloat ⟨n.negative, n.digits, n.exponent⟩)
  else none

/-- The size that a numeral denotes, if it is one. -/
def Numeral.size? (n : Numeral) : Option Nat :=
  if n.whole && !n.negative && n.digits < Json.wordLimit then some n.digits else none

/-- The integer that a numeral denotes, if it is written as one and in range. Zero with a sign is none:
    only a double has it. -/
def Numeral.integer? (n : Numeral) : Option Int :=
  match n.size? with
  | some k => some k
  | none =>
    if n.whole && n.negative && 0 < n.digits && n.digits ≤ Json.negativeLimit then some (-(n.digits : Int))
    else none

/-- The number that a numeral denotes, if it is in range. -/
def Numeral.number? (n : Numeral) : Option Json.Number :=
  match n.integer? with
  | some k => some (.whole k)
  | none => n.toFloat?.map .real

namespace Json

mutual

/-- Whether a value holds no syntax error. Bounds on numbers, strings and nesting do not matter. -/
def intact : Json → Bool
  | .array items closed => closed && intactItems items
  | .object members closed => closed && intactMembers members
  | .broken => false
  | _ => true

/-- Whether no item holds a syntax error. -/
def intactItems : List Json → Bool
  | [] => true
  | item :: rest => intact item && intactItems rest

/-- Whether no member holds a syntax error. -/
def intactMembers : List (Option String × Json) → Bool
  | [] => true
  | (_, value) :: rest => intact value && intactMembers rest

end

/-- Containers may be nested this deep. -/
def depthLimit : Nat := 127

/-- Enters a container that has `depth` containers around it. -/
def enter (depth : Nat) : Except Defect Nat :=
  if depth < depthLimit then .ok (depth + 1) else .error .malformed

mutual

/-- The value of a tree without defects; `depth` containers are around it. -/
def strict (depth : Nat) : Json → Except Defect Value
  | .null => .ok .null
  | .bool b => .ok (.bool b)
  | .number n => match n.number? with
    | some x => .ok (.number x)
    | none => .error .malformed
  | .string (some s) => .ok (.string s)
  | .string none => .error .malformed
  | .array items closed => do
    let inner ← enter depth
    let values ← strictItems inner items
    if closed then .ok (.array values) else .error .malformed
  | .object members closed => do
    let inner ← enter depth
    let pairs ← strictMembers inner members
    if closed then .ok (.object pairs) else .error .malformed
  | .broken => .error .malformed

/-- The values of a list of items. -/
def strictItems (depth : Nat) : List Json → Except Defect (List Value)
  | [] => .ok []
  | item :: rest => do
    let value ← strict depth item
    let values ← strictItems depth rest
    .ok (value :: values)

/-- The members of an object, in the order of the text. -/
def strictMembers (depth : Nat) : List (Option String × Json) → Except Defect (List (String × Value))
  | [] => .ok []
  | (none, _) :: _ => .error .malformed
  | (some key, item) :: rest => do
    let value ← strict depth item
    let pairs ← strictMembers depth rest
    .ok ((key, value) :: pairs)

end

end Json

end FlightFit
