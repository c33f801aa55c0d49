import FlightFit.Json.Basic
import FlightFit.Decimal.Layout

/-!
Module: FlightFit.Json.Printer
Purpose: JSON text. Every writer takes the text that follows and puts its own in front of it. A double
  is written with the fewest digits that read back, always as a fraction or with an exponent, and a
  double that is not finite is written as null.
Main exports: Layout.json, Json.Style, Json.Value.render
-/

namespace FlightFit

/-- Written out when the decimal exponent is from -5 to 15, with a point in every case; otherwise with
    a signed exponent. -/
def Layout.json : Layout where
  positional := fun e => -5 ≤ e && e ≤ 15
  wholeEnd := ['.', '0']
  plus := ['+']
  tie := .toEven

namespace Json

/-- Whether a text is spread over lines. -/
inductive Style where
  /-- One item a line, indented by two blanks a level. -/
  | pretty
  /-- No blanks at all. -/
  | compact
deriving DecidableEq, Repr

/-- The hexadecimal digit of a number below sixteen. -/
def hexDigit (n : Nat) : Char := if n < 10 then Char.ofNat (48 + n) else Char.ofNat (87 + n)

/-- Writes a character inside a string. -/
def writeChar (c : Char) (tail : List Char) : List Char :=
  match c with
  | '"' => '\\' :: '"' :: tail
  | '\\' => '\\' :: '\\' :: tail
  | '\x08' => '\\' :: 'b' :: tail
  | '\x0c' => '\\' :: 'f' :: tail
  | '\n' => '\\' :: 'n' :: tail
  | '\r' => '\\' :: 'r' :: tail
  | '\t' => '\\' :: 't' :: tail
  | c =>
    if c.toNat < 0x20 then
      '\\' :: 'u' :: '0' :: '0' :: hexDigit (c.toNat / 16) :: hexDigit (c.toNat % 16) :: tail
    else c :: tail

/-- Writes a string. -/
def writeText (s : String) (tail : List Char) : List Char :=
  '"' :: s.toList.foldr writeChar ('"' :: tail)

/-- Writes a number. -/
def writeNumber (n : Number) (tail : List Char) : List Char :=
  match n with
  | .whole k => signedText [] k ++ tail
  | .real x =>
    match Binary.ofFloat x with
    | .finite negative code => Layout.json.finiteText negative code ++ tail
    | _ => 'n' :: 'u' :: 'l' :: 'l' :: tail

/-- Starts a new line at a level, in the pretty style. -/
def Style.line (style : Style) (level : Nat) (tail : List Char) : List Char :=
  match style with
  | .pretty => '\n' :: (List.replicate (2 * level) ' ' ++ tail)
  | .compact => tail

/-- Separates a key from its value. -/
def Style.colon (style : Style) (tail : List Char) : List Char :=
  match style with
  | .pretty => ':' :: ' ' :: tail
  | .compact => ':' :: tail

mutual

/-- Writes a value that stands at a level. -/
def writeValue (style : Style) (level : Nat) (value : Value) (tail : List Char) : List Char :=
  match value with
  | .null => 'n' :: 'u' :: 'l' :: 'l' :: tail
  | .bool true => 't' :: 'r' :: 'u' :: 'e' :: tail
  | .bool false => 'f' :: 'a' :: 'l' :: 's' :: 'e' :: tail
  | .number n => writeNumber n tail
  | .string s => writeText s tail
  | .array [] => '[' :: ']' :: tail
  | .array (item :: items) =>
    '[' :: style.line (level + 1) (writeValue style (level + 1) item
      (writeItems style level items tail))
  | .object [] => '\x7b' :: '\x7d' :: tail
  | .object ((key, item) :: members) =>
    '\x7b' :: style.line (level + 1) (writeText key (style.colon (writeValue style (level + 1) item
      (writeMembers style level members tail))))

/-- Writes the items after the first one and the end of an array. -/
def writeItems (style : Style) (level : Nat) (items : List Value) (tail : List Char) : List Char :=
  match items with
  | [] => style.line level (']' :: tail)
  | item :: rest =>
    ',' :: style.line (level + 1) (writeValue style (level + 1) item
      (writeItems style level rest tail))

/-- Writes the members after the first one and the end of an object. -/
def writeMembers (style : Style) (level : Nat) (members : List (String × Value))
    (tail : List Char) : List Char :=
  match members with
  | [] => style.line level ('\x7d' :: tail)
  | (key, item) :: rest =>
    ',' :: style.line (level + 1) (writeText key (style.colon (writeValue style (level + 1) item
      (writeMembers style level rest tail))))

end

/-- The text of a value. -/
def Value.render (style : Style) (value : Value) : String :=
  String.ofList (writeValue style 0 value [])

end Json

end FlightFit
