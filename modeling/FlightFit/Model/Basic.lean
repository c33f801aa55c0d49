import FlightFit.Regressor
import FlightFit.TrainingSet
import FlightFit.Transform

/-!
Module: FlightFit.Model.Basic
Purpose: A transform and a regression method that share one accumulated training set. A model is empty,
  then accumulates rows, then is trained. New rows drop the fitted weights, and training again fits
  everything accumulated so far.
Main exports: Model, Model.State, Model.build, Model.readBatch, Model.absorb, Model.read, Model.train,
  Model.inSampleError, Model.outSampleError, Model.predict
-/

namespace FlightFit

/-- A model. -/
structure Model where
  transform : Transform
  regressor : Regressor
  training : TrainingSet
  parameters : Option (Matrix Float)

namespace Model

/-- The stages of a model's life. -/
inductive State where
  | empty
  | accumulating
  | trained
deriving DecidableEq, Repr

/-- A model without rows and weights. -/
def fresh (transform : Transform) (regressor : Regressor) : Model := ⟨transform, regressor, .empty, none⟩

/-- The model of a named method and a transform. -/
def build (id : String) (transform : Transform) (options : RegressorOptions) : Except Fault Model := do
  let regressor ← Regressor.named id options
  let transform ← transform.checked
  .ok (fresh transform regressor)

/-- The stage a model is in. -/
def state (m : Model) : State :=
  if m.parameters.isSome then .trained
  else if m.training.isEmpty then .empty
  else .accumulating

/-- The number of accumulated rows. -/
def rows (m : Model) : Nat := m.training.rows

/-- The rows of a window, without touching the model. -/
def readBatch (m : Model) (table : Table) (w : Window) : Except Fault TrainingSet :=
  if w.isEmpty then .error (.emptyRange w.start w.stop)
  else do
    let (x, y) ← m.transform.build table w
    TrainingSet.ofMatrices x y

/-- Takes a batch into the training set. An empty batch changes nothing. -/
def absorb (m : Model) (batch : TrainingSet) : Except Fault Model :=
  if batch.isEmpty then .ok m
  else do
    let training ← m.training.merge batch
    .ok { m with training, parameters := none }

/-- What reading a window has done. -/
structure Reading where
  /-- Rows read. -/
  added : Nat
  /-- Rows accumulated afterwards. -/
  total : Nat
  /-- Whether fitted weights were dropped. -/
  refit : Bool
deriving DecidableEq, Repr

/-- Reads a window into the training set. -/
def read (m : Model) (table : Table) (w : Window) : Except Fault (Model × Reading) := do
  let batch ← m.readBatch table w
  let next ← m.absorb batch
  .ok (next, ⟨batch.rows, next.rows, m.parameters.isSome && !batch.isEmpty⟩)

/-- The weights for everything accumulated. -/
def fitted (m : Model) : Except Fault (Matrix Float) :=
  if m.training.isEmpty then .error (.insufficientData 0)
  else m.regressor.train m.training.x m.training.y

/-- Fits the model to everything accumulated. -/
def train (m : Model) : Except Fault Model := do
  let weights ← m.fitted
  .ok { m with parameters := some weights }

/-- The fitted weights. -/
def weights (m : Model) : Except Fault (Matrix Float) :=
  match m.parameters with
  | some weights => .ok weights
  | none => .error (.insufficientData m.rows)

/-- The residuals of the accumulated rows. -/
def inSampleResiduals (m : Model) : Except Fault (Matrix Float) := do
  let weights ← m.weights
  if m.training.isEmpty then .error (.insufficientData 0)
  else m.regressor.residuals m.training.x m.training.y weights

/-- The residuals of a window. -/
def outSampleResiduals (m : Model) (table : Table) (w : Window) : Except Fault (Matrix Float) := do
  let weights ← m.weights
  let batch ← m.readBatch table w
  m.regressor.residuals batch.x batch.y weights

/-- The error of the fit on the accumulated rows. -/
def inSampleError (m : Model) : Except Fault (ErrorReport Float) := do
  Regressor.report (← m.inSampleResiduals)

/-- The error of the fit on a window. -/
def outSampleError (m : Model) (table : Table) (w : Window) : Except Fault (ErrorReport Float) := do
  Regressor.report (← m.outSampleResiduals table w)

/-- The predicted targets of a window. -/
def predict (m : Model) (table : Table) (w : Window) : Except Fault (Matrix Float) := do
  let weights ← m.weights
  let batch ← m.readBatch table w
  m.regressor.predict batch.x weights

end Model

end FlightFit
