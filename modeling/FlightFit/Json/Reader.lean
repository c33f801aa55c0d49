import FlightFit.Json.Basic

/-!
Module: FlightFit.Json.Reader
Purpose: From text to `Json`. Reading goes on until the text ends or breaks the grammar; in the second
  case the tree read so far is kept and no text remains.
Main exports: readString, readNumeral, readValue, Document, Document.ofText
-/

namespace FlightFit.Json

/-- Drops blanks at the front of a text. -/
def skipBlanks : List Char → List Char
  | [] => []
  | c :: cs => if c == ' ' || c == '\n' || c == '\t' || c == '\r' then skipBlanks cs else c :: cs

/-- The value of a hexadecimal digit. -/
def hexValue? (c : Char) : Option Nat :=
  if isDigit c then some (digitValue c)
  else if 'a' ≤ c && c ≤ 'f' then some (c.toNat - 87)
  else if 'A' ≤ c && c ≤ 'F' then some (c.toNat - 55)
  else none

/-- The code unit of four hexadecimal digits. -/
def unit? (a b c d : Char) : Option Nat := do
  let a ← hexValue? a
  let b ← hexValue? b
  let c ← hexValue? c
  let d ← hexValue? d
  some (((a * 16 + b) * 16 + c) * 16 + d)

/-- The character of a one-letter escape. -/
def escape? : Char → Option Char
  | '"' => some '"'
  | '\\' => some '\\'
  | '/' => some '/'
  | 'b' => some '\x08'
  | 'f' => some '\x0c'
  | 'n' => some '\n'
  | 'r' => some '\r'
  | 't' => some '\t'
  | _ => none

/-- Whether a code unit is the first half of a pair. -/
def isHigh (u : Nat) : Bool := 0xD800 ≤ u && u < 0xDC00

/-- Whether a code unit is the second half of a pair. -/
def isLow (u : Nat) : Bool := 0xDC00 ≤ u && u < 0xE000

/-- The character of a pair of code units. -/
def paired (high low : Nat) : Char :=
  Char.ofNat (0x10000 + (high - 0xD800) * 0x400 + (low - 0xDC00))

/-- What has been read of a string. -/
structure Scan where
  /-- The characters so far, last first. -/
  chars : List Char
  /-- No unpaired surrogate so far. -/
  sound : Bool
  /-- A first half that waits for the second. -/
  high : Option Nat

namespace Scan

/-- Adds an ordinary character. -/
def add (s : Scan) (c : Char) : Scan := ⟨c :: s.chars, s.sound && s.high.isNone, none⟩

/-- Adds an escaped code unit. -/
def addUnit (s : Scan) (u : Nat) : Scan :=
  if isHigh u then ⟨s.chars, s.sound && s.high.isNone, some u⟩
  else if isLow u then
    match s.high with
    | some h => ⟨paired h u :: s.chars, s.sound, none⟩
    | none => ⟨s.chars, false, none⟩
  else s.add (Char.ofNat u)

/-- The text of a finished string. -/
def text (s : Scan) : Option String :=
  if s.sound && s.high.isNone then some (String.ofList s.chars.reverse) else none

end Scan

/-- Reads the rest of a string, after its opening quote. -/
def readString (s : Scan) : List Char → Option (Option String × List Char)
  | [] => none
  | '"' :: cs => some (s.text, cs)
  | '\\' :: 'u' :: a :: b :: c :: d :: cs =>
    match unit? a b c d with
    | some u => readString (s.addUnit u) cs
    | none => none
  | '\\' :: c :: cs =>
    match escape? c with
    | some e => readString (s.add e) cs
    | none => none
  | c :: cs => if c.toNat < 0x20 then none else readString (s.add c) cs

/-- Reads a string whose opening quote has been taken. -/
def readText (cs : List Char) : Option (Option String × List Char) :=
  readString ⟨[], true, none⟩ cs

/-- Reads the whole part of a numeral: a single zero, or digits that start with none. -/
def readWhole : List Char → Option (Nat × List Char)
  | [] => none
  | '0' :: cs =>
    match cs with
    | c :: _ => if isDigit c then none else some (0, cs)
    | [] => some (0, [])
  | c :: cs =>
    if isDigit c then
      let (value, _, rest) := digitRun 0 0 (c :: cs)
      some (value, rest)
    else none

/-- Reads an optional fraction onto the digits before it, counting its places. -/
def readPlaces (whole : Nat) : List Char → Option (Nat × Nat × List Char)
  | '.' :: cs =>
    match digitRun whole 0 cs with
    | (_, 0, _) => none
    | found => some found
  | cs => some (whole, 0, cs)

/-- Reads an optional exponent; the flag says whether there was one. -/
def readPower : List Char → Option (Bool × Int × List Char)
  | [] => some (false, 0, [])
  | c :: cs =>
    if c == 'e' || c == 'E' then
      let (negative, body) := splitSign cs
      match digitRun 0 0 body with
      | (_, 0, _) => none
      | (value, _, rest) => some (true, if negative then -(value : Int) else value, rest)
    else some (false, 0, c :: cs)

/-- Reads a numeral without sign. -/
def readUnsignedNumeral (negative : Bool) (cs : List Char) : Option (Numeral × List Char) := do
  let (whole, rest) ← readWhole cs
  let (digits, places, rest) ← readPlaces whole rest
  let (powered, power, rest) ← readPower rest
  some (⟨negative, digits, power - places, places == 0 && !powered⟩, rest)

/-- Reads a numeral. -/
def readNumeral : List Char → Option (Numeral × List Char)
  | '-' :: cs => readUnsignedNumeral true cs
  | cs => readUnsignedNumeral false cs

/-- Reads a value that is neither a container nor a string. -/
def readScalar : List Char → Option (Json × List Char)
  | 'n' :: 'u' :: 'l' :: 'l' :: cs => some (.null, cs)
  | 't' :: 'r' :: 'u' :: 'e' :: cs => some (.bool true, cs)
  | 'f' :: 'a' :: 'l' :: 's' :: 'e' :: cs => some (.bool false, cs)
  | cs => (readNumeral cs).map fun (n, rest) => (.number n, rest)

mutual

/-- Reads a value. The text after it is missing when the grammar was broken. -/
def readValue : Nat → List Char → Json × Option (List Char)
  | 0, _ => (.broken, none)
  | fuel + 1, cs =>
    match skipBlanks cs with
    | '[' :: rest =>
      match skipBlanks rest with
      | ']' :: rest => (.array [] true, some rest)
      | rest =>
        let (items, rest) := readItems fuel [] rest
        (.array items rest.isSome, rest)
    | '\x7b' :: rest =>
      match skipBlanks rest with
      | '\x7d' :: rest => (.object [] true, some rest)
      | rest =>
        let (members, rest) := readMembers fuel [] rest
        (.object members rest.isSome, rest)
    | '"' :: rest =>
      match readText rest with
      | some (text, rest) => (.string text, some rest)
      | none => (.broken, none)
    | rest =>
      match readScalar rest with
      | some (value, rest) => (value, some rest)
      | none => (.broken, none)

/-- Reads the items of an array, the next of which must follow, up to its end. -/
def readItems : Nat → List Json → List Char → List Json × Option (List Char)
  | 0, items, _ => (items.reverse, none)
  | fuel + 1, items, cs =>
    match readValue fuel cs with
    | (item, none) => ((item :: items).reverse, none)
    | (item, some rest) =>
      match skipBlanks rest with
      | ']' :: rest => ((item :: items).reverse, some rest)
      | ',' :: rest => readItems fuel (item :: items) rest
      | _ => ((item :: items).reverse, none)

/-- Reads the members of an object, the next of which must follow, up to its end. -/
def readMembers : Nat → List (Option String × Json) → List Char →
    List (Option String × Json) × Option (List Char)
  | 0, members, _ => (members.reverse, none)
  | fuel + 1, members, cs =>
    match skipBlanks cs with
    | '"' :: rest =>
      match readText rest with
      | none => (members.reverse, none)
      | some (key, rest) =>
        match skipBlanks rest with
        | ':' :: rest =>
          match readValue fuel rest with
          | (value, none) => (((key, value) :: members).reverse, none)
          | (value, some rest) =>
            match skipBlanks rest with
            | '\x7d' :: rest => (((key, value) :: members).reverse, some rest)
            | ',' :: rest => readMembers fuel ((key, value) :: members) rest
            | _ => (((key, value) :: members).reverse, none)
        | _ => (((key, .broken) :: members).reverse, none)
    | _ => (members.reverse, none)

end

/-- A text read as JSON. -/
structure Document where
  root : Json
  /-- Nothing but blanks follows the root. -/
  clean : Bool

/-- Reads a text. Twice its length is enough fuel: every step into a container takes a character and
    every further item takes two. -/
def Document.ofText (text : String) : Document :=
  let cs := text.toList
  match readValue (2 * cs.length + 2) cs with
  | (root, some rest) => ⟨root, (skipBlanks rest).isEmpty⟩
  | (root, none) => ⟨root, false⟩

/-- The value of a text that is sound JSON throughout. -/
def Value.ofText (text : String) : Except Defect Value := do
  let document := Document.ofText text
  let value ← document.root.strict 0
  if document.clean then .ok value else .error .malformed

end FlightFit.Json
