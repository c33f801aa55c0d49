import FlightFit.Decimal.Layout

/-!
Module: FlightFit.Delimited.Writer
Purpose: Delimited text from records. A field is quoted when it holds the delimiter, a quote or a line
  end; quotes inside are doubled. A record without any text is written as an empty quoted field, so that
  no line is empty.
Main exports: Delimited.writeField, Delimited.writeRecord, Delimited.writeTable
-/

namespace FlightFit.Delimited

/-- The delimiter of telemetry files. -/
def bar : Char := '|'

/-- Whether a field has to be quoted for its characters. -/
def needsQuotes (field : List Char) : Bool :=
  field.any fun c => c == bar || c == '"' || c == '\n' || c == '\r'

/-- A field with quotes around it and every quote in it doubled. -/
def quoteField (field : List Char) : List Char :=
  '"' :: (field.flatMap fun c => if c == '"' then ['"', '"'] else [c]) ++ ['"']

/-- A field, quoted when needed. -/
def writeField (field : List Char) : List Char :=
  if needsQuotes field then quoteField field else field

/-- Fields with delimiters between them. -/
def joinFields : List (List Char) → List Char
  | [] => []
  | [field] => field
  | field :: rest => field ++ bar :: joinFields rest

/-- A record with its line end. -/
def writeRecord (fields : List String) : List Char :=
  match joinFields (fields.map fun field => writeField field.toList) with
  | [] => quoteField [] ++ ['\n']
  | line => line ++ ['\n']

/-- A header and rows of numbers in a given form. -/
def writeTable (number : Float → String) (names : List String) (rows : List (List Float)) : String :=
  String.ofList (writeRecord names ++ rows.flatMap fun row => writeRecord (row.map number))

end FlightFit.Delimited
