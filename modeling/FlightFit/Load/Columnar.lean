import FlightFit.Failure
import FlightFit.Table

/-!
Module: FlightFit.Load.Columnar
Purpose: What is read from the typed columns of a columnar file. A missing value is read as undefined.
  The type of a column matters only when there are rows.
Main exports: Columnar.columnsOf, Columnar.ofChannels
-/

namespace FlightFit.Columnar

/-- The samples of a column. -/
def samples (column : TypedColumn) : List Float :=
  column.values.map fun value => value.getD (Binary.toFloat .undefined)

/-- The first column with rows that is not numeric. -/
def misfit? (columns : List TypedColumn) : Option TypedColumn :=
  columns.find? fun column => !column.values.isEmpty && !column.type.isNumeric

/-- The columns of samples in typed columns. -/
def columnsOf (columns : List TypedColumn) : Except Failure Columns :=
  match misfit? columns with
  | some column =>
    .error ⟨[s!"column '{column.name}'"],
      .other s!"expected a numeric column, got {column.type.name}"⟩
  | none =>
    .ok (columns.map fun column => (column.name, samples column))

/-- The typed columns of channels in double precision. -/
def ofChannels (names : List String) (channels : List (List Float)) : List TypedColumn :=
  List.zipWith (fun name samples => ⟨name, .float64, samples.map some⟩) names channels

end FlightFit.Columnar
