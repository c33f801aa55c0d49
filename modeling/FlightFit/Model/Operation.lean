import FlightFit.Event
import FlightFit.Model.Snapshot

/-!
Module: FlightFit.Model.Operation
Purpose: The life of a model as a sequence of operations, each of which answers and leaves a model
  behind, and what is reported about each of them.
Main exports: Model.Operation, Model.Answer, Model.perform, Model.performAll, Model.journal
-/

namespace FlightFit.Model

/-- Something that is done with a model. -/
inductive Operation where
  | read (table : Table) (window : Window)
  | readBatch (table : Table) (window : Window)
  | absorb (batch : TrainingSet)
  | train
  | inSampleError (verbose : Bool)
  | outSampleError (table : Table) (window : Window) (verbose : Bool)
  | predict (table : Table) (window : Window)
  | snapshot (inSample : Option (ErrorReport Float))

/-- What an operation answers. -/
inductive Answer where
  | added (rows : Nat)
  | batch (rows : TrainingSet)
  | done
  | weights (matrix : Matrix Float)
  | report (report : ErrorReport Float)
  | predictions (matrix : Matrix Float)
  | snapshot (snapshot : Snapshot)

/-- Does one operation. After a fault the model is the one before. -/
def perform (m : Model) : Operation → Model × Except Fault Answer
  | .read table w => match m.read table w with
    | .ok (next, reading) => (next, .ok (.added reading.added))
    | .error fault => (m, .error fault)
  | .readBatch table w => (m, (m.readBatch table w).map .batch)
  | .absorb batch => match m.absorb batch with
    | .ok next => (next, .ok .done)
    | .error fault => (m, .error fault)
  | .train => match m.fitted with
    | .ok weights => ({ m with parameters := some weights }, .ok (.weights weights))
    | .error fault => (m, .error fault)
  | .inSampleError _ => (m, m.inSampleError.map .report)
  | .outSampleError table w _ => (m, (m.outSampleError table w).map .report)
  | .predict table w => (m, (m.predict table w).map .predictions)
  | .snapshot inSample => (m, (m.snapshot inSample).map .snapshot)

/-- Does operations one after the other and collects the answers. -/
def performAll (m : Model) : List Operation → Model × List (Except Fault Answer)
  | [] => (m, [])
  | op :: ops =>
    let (next, answer) := m.perform op
    let (last, answers) := performAll next ops
    (last, answer :: answers)

/-- What is reported when a window has been read. -/
def Reading.events (r : Reading) (w : Window) : List Event :=
  (if r.refit then [.fitDropped] else []) ++ [.rowsRead r.added w r.total]

/-- What is reported about residuals when that is asked for. -/
def residualEvents (label : String) (residuals : Except Fault (Matrix Float)) : List Event :=
  match residuals with
  | .error _ => []
  | .ok residuals =>
    (ResidualSummary.ofResiduals residuals).map (.residuals label) ++
      match Regressor.report residuals with
      | .ok report => [.quality label report]
      | .error _ => []

/-- What is reported about training. -/
def trainEvents (m : Model) : List Event :=
  if m.training.isEmpty then []
  else match assess m.training.x m.training.y with
    | .error _ => []
    | .ok condition =>
      .assessed m.training.x.height m.training.x.cols condition.toFloat ::
        match m.fitted with
        | .ok weights => [.trained m.regressor.id m.rows weights.height weights.cols]
        | .error _ => []

/-- What is reported about an operation on a model. -/
def journal (m : Model) : Operation → List Event
  | .read table w => match m.read table w with
    | .ok (_, reading) => reading.events w
    | .error _ => []
  | .absorb batch => match m.absorb batch with
    | .ok _ => if m.parameters.isSome && !batch.isEmpty then [.fitDropped] else []
    | .error _ => []
  | .train => m.trainEvents
  | .inSampleError true => residualEvents "in-sample" m.inSampleResiduals
  | .outSampleError table w true => residualEvents "out-of-sample" (m.outSampleResiduals table w)
  | _ => []

end FlightFit.Model
