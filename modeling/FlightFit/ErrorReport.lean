import FlightFit.Matrix.Basic

/-!
Module: FlightFit.ErrorReport
Purpose: The quality of a fit: sums and root means of squared residuals, one for each target column.
Main exports: ErrorReport, ErrorReport.ofResiduals, ErrorReport.totalSe, ResidualSummary
-/

namespace FlightFit

/-- Fit quality for each target column. -/
structure ErrorReport (α : Type) where
  /-- Root-mean-square residuals. -/
  rmse : List α
  /-- Sums of squared residuals. -/
  se : List α
  rows : Nat
deriving Repr

namespace ErrorReport

variable {α : Type} [RootedScalar α]

/-- The sum of the squares of a column. -/
@[specialize]
def squareSum (column : List α) : α := Scalar.dot column column

/-- The report on residuals; without rows there is none. -/
@[specialize]
def ofResiduals (residuals : Matrix α) : Option (ErrorReport α) :=
  if residuals.height = 0 then none
  else
    let se := residuals.columns.map squareSum
    some ⟨se.map fun s => RootedScalar.root (s / Scalar.ofNat residuals.height), se, residuals.height⟩

/-- The squared error over all target columns. -/
@[specialize]
def totalSe (report : ErrorReport α) : α := Scalar.sum report.se

end ErrorReport

/-- What is told about the residuals of one target. -/
structure ResidualSummary where
  target : Nat
  rows : Nat
  mean : Float
  maxAbs : Float
deriving Repr

/-- The summary of a column of residuals. Undefined residuals do not count for the maximum. -/
def ResidualSummary.ofColumn (target : Nat) (column : List Float) : ResidualSummary where
  target := target
  rows := column.length
  mean := if column.isEmpty then 0.0 else Scalar.sum column / Scalar.ofNat column.length
  maxAbs := column.foldl (fun m r => if m < Scalar.abs r then Scalar.abs r else m) 0.0

/-- The summaries of all target columns. -/
def ResidualSummary.ofResiduals (residuals : Matrix Float) : List ResidualSummary :=
  residuals.columns.mapIdx ResidualSummary.ofColumn

end FlightFit
