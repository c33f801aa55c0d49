import FlightFit.Codec.Basic
import FlightFit.Load.Columnar
import FlightFit.Load.Delimited
import FlightFit.Load.Json
import FlightFit.Session

/-!
Module: FlightFit.Load.Files
Purpose: Loading telemetry from files: one file by the format that its extension names, and several
  files one below the other, with units converted at the end.
Main exports: loadUnits, loadFile, loadAll
-/

namespace FlightFit

open FlightFit.Action

/-- The unit conversions in a file. -/
def loadUnits (path : String) : Action UnitConverter := do
  let text ← during s!"reading unit file {path}" (readText path)
  during "parsing unit file" (decode (UnitConverter.decoder.run text))

/-- The columns of a file in delimited text. -/
def delimitedColumns (delimiter : UInt8) (path : String) : Action Columns := do
  match (← get).store.read path with
  | .ok (.bytes data) => conclude (Delimited.columnsOfBytes delimiter data.data.toList)
  | .ok (.columns _) => during "reading headers" (fail .encoding)
  -- A folder can be opened; only reading it fails.
  | .error .isFolder => during "reading headers" (fail (.store .isFolder))
  | .error fault => during "opening delimited file" (fail (.store fault))

/-- The columns of a file in JSON. -/
def jsonColumns (path : String) : Action Columns := do
  let text ← during "reading JSON file" (readText path)
  let value ← during "parsing JSON" (decode (Json.Value.ofText text))
  conclude (Json.columnsOfValue value)

/-- The columns of a columnar file. Anything else that can be opened, a folder included, is refused alike. -/
def columnarColumns (path : String) : Action Columns := do
  match (← get).store.read path with
  | .ok (.columns columns) => conclude (Columnar.columnsOf columns)
  | .ok (.bytes _) | .error .isFolder => during "reading parquet metadata" (fail .columnar)
  | .error fault => during "opening parquet file" (fail (.store fault))

/-- Makes a table of the columns that are read. -/
def tableOf (columns : Action Columns) : Action Table := do
  attempt (Table.ofColumns (← columns))

/-- A table in delimited text. -/
def loadDelimited (delimiter : UInt8) (path : String) : Action Table := tableOf (delimitedColumns delimiter path)

/-- A table in JSON. -/
def loadJson (path : String) : Action Table := tableOf (jsonColumns path)

/-- A table in a columnar file. -/
def loadColumnar (path : String) : Action Table := tableOf (columnarColumns path)

/-- The formats of telemetry files. -/
inductive FileFormat where
  | columnar
  | json
  | delimited
deriving DecidableEq, Repr

/-- The format that an extension names. -/
def FileFormat.ofExtension? : String → Option FileFormat
  | "parquet" | "pq" => some .columnar
  | "json" => some .json
  | "csv" | "txt" | "dat" => some .delimited
  | _ => none

/-- Loads a file, in the format of its extension. -/
def loadFile (delimiter : UInt8) (path : String) : Action Table := do
  let ext := Path.extension path
  match FileFormat.ofExtension? ext with
  | none => fail (.other s!"Unsupported file extension: .{ext}")
  | some format =>
    let table ← during s!"loading {path}" (match format with
      | .columnar => loadColumnar path
      | .json => loadJson path
      | .delimited => loadDelimited delimiter path)
    report (.loaded table.rows table.channels.length path)
    pure table

/-- Loads files one below the other, below a table. -/
def loadBelow (delimiter : UInt8) (table : Table) : List String → Action Table
  | [] => pure table
  | path :: rest => do
    let next ← loadFile delimiter path
    let table ← during s!"appending {path}" (attempt (table.extend next))
    loadBelow delimiter table rest

/-- Converts the units of a table. -/
def convertUnits (converter : UnitConverter) (table : Table) : Action Table := do
  match converter.apply table with
  | (table, .ok ()) =>
    report (.converted converter.conversions.length)
    pure table
  | (_, .error fault) =>
    match fault with
    | .unknownChannel name =>
      during s!"applying unit conversion to '{name}'" (fail (.fault fault))
    | fault => fail (.fault fault)

/-- Loads files one below the other and converts units. -/
def loadAll (delimiter : UInt8) (converter : Option UnitConverter) (paths : List String) :
    Action Table := do
  let table ← loadBelow delimiter .empty paths
  match converter with
  | some converter => convertUnits converter table
  | none => pure table

end FlightFit
