import FlightFit.Failure
import FlightFit.Json.Reader
import FlightFit.Keyed
import FlightFit.Table

/-!
Module: FlightFit.Load.Json
Purpose: What is read from JSON, in two layouts: an object with an array of numbers for each channel, or
  an array of records, objects with a number for each channel. Channels come in the order of their names.
Main exports: Json.readColumns, Json.columnsOfRecords, Json.columnsOfValue
-/

namespace FlightFit.Json

/-- The numbers of an array, counted from `index` on. -/
def readNumbers (name : String) (index : Nat) : List Value → Except Failure (List Float)
  | [] => .ok []
  | value :: rest => match value.float? with
    | none => .error (.ofText s!"{name}[{digitText index}]: not a number")
    | some x => do
      let more ← readNumbers name (index + 1) rest
      .ok (x :: more)

/-- The samples of channels that are given as arrays. -/
def readColumns : List (String × Value) → Except Failure Columns
  | [] => .ok []
  | (name, value) :: rest => match value with
    | .array items => do
      let samples ← readNumbers name 0 items
      let more ← readColumns rest
      .ok ((name, samples) :: more)
    | _ => .error (.ofText s!"'{name}' is not an array")

/-- Appends a number to the column of a name, or begins one. -/
def push (name : String) (x : Float) : List (String × Array Float) → List (String × Array Float)
  | [] => [(name, #[x])]
  | (other, column) :: rest =>
    if name = other then (other, column.push x) :: rest else (other, column) :: push name x rest

/-- Appends the numbers of a record to the columns of their names. -/
def pushRecord (row : Nat) (members : List (String × Value)) :
    List String → List (String × Array Float) → Except Failure (List (String × Array Float))
  | [], columns => .ok columns
  | name :: rest, columns => match (Keyed.find? name members).bind Value.float? with
    | none => .error (.ofText s!"Row {digitText row}, '{name}': missing or not a number")
    | some x => pushRecord row members rest (push name x columns)

/-- Appends the numbers of records, which are counted from `row` on. -/
def pushRecords (names : List String) :
    Nat → List Value → List (String × Array Float) → Except Failure (List (String × Array Float))
  | _, [], columns => .ok columns
  | row, .object members :: rest, columns =>
    let members := Keyed.ofList members
    if members.length ≠ names.length then
      .error (.ofText (s!"Row {digitText row}: has {digitText members.length} fields, " ++
        s!"expected {digitText names.length}"))
    else do
      let columns ← pushRecord row members names columns
      pushRecords names (row + 1) rest columns
  | row, _ :: _, _ => .error (.ofText s!"Row {digitText row} is not a JSON object")

/-- Takes the columns of names out, one after the other. -/
def takeColumns : List String → List (String × Array Float) → Columns
  | [], _ => []
  | name :: rest, columns =>
    (name, ((Keyed.find? name columns).getD #[]).toList) :: takeColumns rest (Keyed.erase name columns)

/-- The channel names of records: the names in the first one. -/
def recordNames : List Value → List String
  | .object members :: _ => (Keyed.ofList members).map Prod.fst
  | _ => []

/-- The columns of an array of records. -/
def columnsOfRecords (records : List Value) : Except Failure Columns := do
  let names := recordNames records
  let columns ← pushRecords names 0 records []
  .ok (takeColumns names columns)

/-- The columns in a JSON value. -/
def columnsOfValue : Value → Except Failure Columns
  | .object members => readColumns (Keyed.ofList members)
  | .array records => columnsOfRecords records
  | _ => .error (.ofText "Expected a top-level JSON object or array")

end FlightFit.Json
