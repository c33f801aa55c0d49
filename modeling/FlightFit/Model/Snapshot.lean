import FlightFit.Model.Basic

/-!
Module: FlightFit.Model.Snapshot
Purpose: The stored form of a trained model: what is needed to predict with it again, and where it came
  from. A restored model has its weights and no accumulated rows.
Main exports: ParameterBlock, Snapshot, Model.snapshot, Model.ofSnapshot
-/

namespace FlightFit

/-- A matrix of weights as a shape and its entries row by row. -/
structure ParameterBlock where
  rows : Nat
  cols : Nat
  values : List Float
deriving Repr

namespace ParameterBlock

/-- Sizes are multiplied in words of 64 bits. -/
def wordSize : Nat := Nat.pow 2 64

/-- The block of a matrix. -/
def ofMatrix (m : Matrix Float) : ParameterBlock := ⟨m.height, m.cols, m.entries⟩

/-- The matrix of a block that holds as many values as its shape needs. -/
def toMatrix (b : ParameterBlock) : Except Fault (Matrix Float) :=
  if h : b.values.length = b.rows * b.cols then .ok ⟨b.rows, b.cols, b.values, h⟩
  else if b.values.length = b.rows * b.cols % wordSize then .error (.oversized b.rows b.cols)
  else .error (.shapeMismatch (.blockValues b.rows b.cols b.values.length))

end ParameterBlock

/-- Where a stored model came from. -/
structure SnapshotMetadata where
  trainedRows : Nat
  inSample : Option (ErrorReport Float)
  version : String
deriving Repr

/-- A stored model. -/
structure Snapshot where
  formatVersion : Nat
  model : String
  options : RegressorOptions
  transform : Transform
  parameters : ParameterBlock
  metadata : SnapshotMetadata
deriving Repr

/-- The version of the stored form. -/
def snapshotVersion : Nat := 1

/-- The version of this program, as stored with a model. -/
def programVersion : String := "0.1.0"

/-- A snapshot of the version that can be read. -/
def Snapshot.checked (s : Snapshot) : Except Fault Snapshot :=
  if s.formatVersion = snapshotVersion then .ok s
  else .error (.snapshotVersion s.formatVersion snapshotVersion)

namespace Model

/-- The stored form of a trained model. -/
def snapshot (m : Model) (inSample : Option (ErrorReport Float)) : Except Fault Snapshot := do
  let weights ← m.weights
  .ok {
    formatVersion := snapshotVersion
    model := m.regressor.id
    options := m.regressor.options
    transform := m.transform
    parameters := .ofMatrix weights
    metadata := ⟨m.rows, inSample, programVersion⟩ }

/-- The trained model of a snapshot. -/
def ofSnapshot (s : Snapshot) : Except Fault Model := do
  let s ← s.checked
  let regressor ← Regressor.named s.model s.options
  let transform ← s.transform.checked
  let parameters ← s.parameters.toMatrix
  .ok { fresh transform regressor with parameters := some parameters }

end Model

end FlightFit
