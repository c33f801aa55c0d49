/-!
Module: FlightFit.Delimited.Reader
Purpose: Records of delimited text, as bytes. A record ends at a line feed or a carriage return, and
  empty lines are no records. A field that starts with a quote goes up to the next lone quote; two
  quotes inside stand for one, and delimiters and line ends inside are data. Text after the closing
  quote belongs to the field, and so does a quote anywhere else.
Main exports: Delimited.Scanner, Delimited.Scanner.step, Delimited.records
-/

namespace FlightFit.Delimited

/-- The quote. -/
def quote : UInt8 := 34

/-- Whether a byte ends a record. -/
def isLineEnd (b : UInt8) : Bool := b == 10 || b == 13

/-- Where the scanner is. -/
inductive Mode where
  /-- Before a record; line ends are skipped here. -/
  | recordStart
  /-- Before a field of a record that has begun. -/
  | fieldStart
  /-- In a field, outside of quotes. -/
  | plain
  /-- In a field, inside of quotes. -/
  | quoted
  /-- After a quote inside of quotes. -/
  | quoteSeen
deriving DecidableEq, Repr

/-- What has been scanned; the lists have their last element first. -/
structure Scanner where
  mode : Mode
  field : List UInt8
  fields : List (List UInt8)
  records : List (List (List UInt8))

namespace Scanner

/-- The scanner at the start of a text. -/
def start : Scanner := ⟨.recordStart, [], [], []⟩

/-- Adds a byte to the field. -/
def push (s : Scanner) (mode : Mode) (b : UInt8) : Scanner := { s with mode, field := b :: s.field }

/-- Ends the field; another one follows in the same record. -/
def endField (s : Scanner) : Scanner :=
  { s with mode := .fieldStart, field := [], fields := s.field.reverse :: s.fields }

/-- Ends the field and the record. -/
def endRecord (s : Scanner) : Scanner :=
  ⟨.recordStart, [], [], (s.field.reverse :: s.fields).reverse :: s.records⟩

/-- Takes a byte outside of quotes. -/
def stepPlain (delimiter : UInt8) (s : Scanner) (b : UInt8) : Scanner :=
  if b == delimiter then s.endField
  else if isLineEnd b then s.endRecord
  else s.push .plain b

/-- Takes the first byte of a field. -/
def stepField (delimiter : UInt8) (s : Scanner) (b : UInt8) : Scanner :=
  if b == quote then { s with mode := .quoted } else s.stepPlain delimiter b

/-- Takes one byte. -/
def step (delimiter : UInt8) (s : Scanner) (b : UInt8) : Scanner :=
  match s.mode with
  | .recordStart => if isLineEnd b then s else s.stepField delimiter b
  | .fieldStart => s.stepField delimiter b
  | .plain => s.stepPlain delimiter b
  | .quoted => if b == quote then { s with mode := .quoteSeen } else s.push .quoted b
  | .quoteSeen => if b == quote then s.push .quoted b else s.stepPlain delimiter b

/-- The records when the text has ended; a record that has begun ends with it. -/
def finish (s : Scanner) : List (List (List UInt8)) :=
  match s.mode with
  | .recordStart => s.records.reverse
  | _ => s.endRecord.records.reverse

end Scanner

/-- Drops a byte order mark. -/
def dropMark : List UInt8 → List UInt8
  | 0xEF :: 0xBB :: 0xBF :: rest => rest
  | bytes => bytes

/-- The records of a text. -/
def records (delimiter : UInt8) (bytes : List UInt8) : List (List (List UInt8)) :=
  ((dropMark bytes).foldl (Scanner.step delimiter) Scanner.start).finish

end FlightFit.Delimited
