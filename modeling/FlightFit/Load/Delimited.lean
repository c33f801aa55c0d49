import FlightFit.Delimited.Reader
import FlightFit.Failure
import FlightFit.Table
import FlightFit.Text.Blank

/-!
Module: FlightFit.Load.Delimited
Purpose: What is read from delimited text. The first record names the channels; every other record holds
  a number for each of them. Names and cells are trimmed, columns without a name and records without a
  filled cell are ignored.
Main exports: Delimited.decodeRecord, Delimited.keptColumns, Delimited.columnsOfRecords,
  Delimited.columnsOfBytes
-/

namespace FlightFit.Delimited

/-- The texts of a list of fields. -/
def decodeFields : List (List UInt8) → Option (List String)
  | [] => some []
  | field :: rest => do
    let text ← String.fromUTF8? ⟨field.toArray⟩
    let texts ← decodeFields rest
    some (trim text :: texts)

/-- The trimmed texts of a record, if all of its fields are UTF-8. -/
def decodeRecord (record : List (List UInt8)) : Option (List String) := decodeFields record

/-- The columns that have a name, from position `index` on. -/
def keptFrom (index : Nat) : List String → List (Nat × String)
  | [] => []
  | name :: rest =>
    if name == "" then keptFrom (index + 1) rest else (index, name) :: keptFrom (index + 1) rest

/-- The columns that have a name. -/
def keptColumns (headers : List String) : List (Nat × String) := keptFrom 0 headers

/-- Whether no cell of a record is filled. -/
def isBare (record : List String) : Bool := record.all (· == "")

/-- The failure at a cell that is no number. -/
def cellFailure (row : Nat) (name cell : String) (fault : LiteralFault) : Failure :=
  ⟨[s!"row {digitText row}, '{name}': '{cell}' is not a number"], .literal fault⟩

/-- Appends the numbers of a record to the kept columns; a cell that is missing is empty. -/
def pushCells (row : Nat) (record : List String) :
    List (Nat × String) → List (Array Float) → Except Failure (List (Array Float))
  | (index, name) :: rest, column :: columns =>
    let cell := record.getD index ""
    match readFloat cell with
    | .error fault => .error (cellFailure row name cell fault)
    | .ok value => do
      let columns ← pushCells row record rest columns
      .ok (column.push value :: columns)
  | _, columns => .ok columns

/-- Appends the numbers of records, which are counted from `row` on; a record that is not UTF-8 has no
    texts. -/
def pushRows (kept : List (Nat × String)) :
    Nat → List (Option (List String)) → List (Array Float) → Except Failure (List (Array Float))
  | _, [], columns => .ok columns
  | row, none :: _, _ => .error ⟨[s!"row {digitText row}"], .encoding⟩
  | row, some record :: rest, columns =>
    if isBare record then pushRows kept (row + 1) rest columns
    else do
      let columns ← pushCells row record kept columns
      pushRows kept (row + 1) rest columns

/-- The columns of a header and records. -/
def columnsOfRecords (headers : List String) (records : List (Option (List String))) :
    Except Failure Columns := do
  let kept := keptColumns headers
  let columns ← pushRows kept 0 records (kept.map fun _ => #[])
  .ok ((kept.map Prod.snd).zip (columns.map Array.toList))

/-- The columns in delimited text. A text without records has none. -/
def columnsOfBytes (delimiter : UInt8) (bytes : List UInt8) : Except Failure Columns :=
  match records delimiter bytes with
  | [] => columnsOfRecords [] []
  | header :: rest => match decodeRecord header with
    | some headers => columnsOfRecords headers (rest.map decodeRecord)
    | none => .error ⟨["reading headers"], .encoding⟩

end FlightFit.Delimited
