import FlightFit.Codec.Snapshot
import FlightFit.Load.Files
import FlightFit.Run.Accumulate
import FlightFit.Run.Config

/-!
Module: FlightFit.Run.Pipeline
Purpose: One run from files to a report: load, find the cruise windows, accumulate them, train,
  evaluate, and save the model if that is asked for.
Main exports: RunReport, findWindows, cruiseWindows, Snapshot.save, Snapshot.load, run
-/

namespace FlightFit

open FlightFit.Action FlightFit.Json

/-- The outcome of a run. -/
structure RunReport where
  trainingRows : Nat
  windows : List Window
  skipped : List SkippedWindow
  /-- Fitted weights, one list for each target column. -/
  parameters : List (List Float)
  inSample : ErrorReport Float
  outSample : Option (ErrorReport Float)
deriving Repr

/-- The JSON form of a skipped window. -/
def SkippedWindow.toValue (s : SkippedWindow) : Value :=
  .object [("range", s.window.toValue), ("reason", .string s.fault.message)]

/-- The JSON form of a run's outcome. -/
def RunReport.toValue (r : RunReport) : Value :=
  .object [("training_rows", .whole r.trainingRows), ("windows", .array (r.windows.map Window.toValue)),
    ("skipped", .array (r.skipped.map SkippedWindow.toValue)),
    ("parameters", .array (r.parameters.map .reals)), ("in_sample", r.inSample.toValue),
    ("out_sample", match r.outSample with
      | some report => report.toValue
      | none => .null)]

/-- Finds cruise windows and reports how many runs there were. -/
def findWindows (limits : CruiseLimits) (speed time : List Float) : Action (List Window) := do
  let found ← attempt (steadyRuns limits speed time)
  let windows ← attempt (steadyWindows limits speed time)
  report (.segmented speed.length found.length windows.length limits.minLength)
  pure windows

/-- The cruise windows of a table. -/
def cruiseWindows (config : RunConfig) (table : Table) : Action (List Window) := do
  let speed ← attempt (table.channel config.speedChannel)
  let time ← attempt (table.channel config.timeChannel)
  let windows ← during "segmenting cruise phases" (findWindows config.segmentation speed time)
  report (.windowsFound windows.length (Window.totalLen windows))
  pure windows

/-- Reads windows into a model and reports on them. -/
def accumulateWindows (m : Model) (table : Table) (windows : List Window) :
    Action (Model × List SkippedWindow) := do
  let (next, outcomes) := accumulate m table windows
  reportAll (accumulateEvents outcomes)
  pure (next, skippedWindows outcomes)

/-- Trains a model. -/
def trainModel (m : Model) : Action (Model × Matrix Float) := do
  reportAll m.trainEvents
  let weights ← attempt m.fitted
  pure ({ m with parameters := some weights }, weights)

/-- The error on the accumulated rows. -/
def inSampleReport (m : Model) (verbose : Bool) : Action (ErrorReport Float) := do
  reportAll (m.journal (.inSampleError verbose))
  attempt m.inSampleError

/-- The error on a window. -/
def outSampleReport (m : Model) (table : Table) (w : Window) (verbose : Bool) :
    Action (ErrorReport Float) := do
  reportAll (m.journal (.outSampleError table w verbose))
  attempt (m.outSampleError table w)

/-- Saves a snapshot, making the folders on the way. -/
def Snapshot.save (s : Snapshot) (path : String) : Action Unit := do
  match Path.parent? path with
  | some folder =>
    if folder != "" then during s!"creating {folder}" (makeFolders folder)
  | none => pure ()
  during s!"creating {path}" (writeText path s.text)
  report (.saved s.model path)

/-- Loads a snapshot of the version that can be read. -/
def Snapshot.load (path : String) : Action Snapshot := do
  let text ← during s!"reading {path}" (readText path)
  let snapshot ← during "parsing model snapshot" (decode (Snapshot.ofText text))
  attempt snapshot.checked

/-- Evaluates a trained model on test files. -/
def evaluateOn (config : RunConfig) (delimiter : UInt8) (converter : Option UnitConverter) (m : Model) :
    Action (ErrorReport Float) := do
  let test ← during "loading test data" (loadAll delimiter converter config.testFiles)
  let window ← attempt (match config.testRange with
    | some (start, stop) => Window.checked start stop
    | none => Window.checked 0 test.rows)
  let result ← during s!"evaluating test range {window.text}"
    (outSampleReport m test window config.verbose)
  report (.quality "out-of-sample" result)
  pure result

/-- The conversions of an optional unit file. -/
def loadOptionalUnits : Option String → Action (Option UnitConverter)
  | some path => do pure (some (← loadUnits path))
  | none => pure none

/-- Does a run. -/
def run (config : RunConfig) : Action RunReport := do
  let converter ← loadOptionalUnits config.units
  let delimiter := config.delimiter.toUInt8
  let train ← during "loading training data" (loadAll delimiter converter config.trainFiles)
  let windows ← cruiseWindows config train
  let model ← attempt (Model.build config.model config.transform config.regressor)
  let (model, skipped) ← accumulateWindows model train windows
  let (model, weights) ← during "training model" (trainModel model)
  let inSample ← inSampleReport model config.verbose
  report (.quality "in-sample" inSample)
  let outSample ←
    if config.testFiles.isEmpty then pure none
    else do pure (some (← evaluateOn config delimiter converter model))
  match config.saveModel with
  | some path => do
    let snapshot ← attempt (model.snapshot (some inSample))
    snapshot.save path
  | none => pure ()
  pure {
    trainingRows := model.rows
    windows := windows
    skipped := skipped
    parameters := weights.columns
    inSample := inSample
    outSample := outSample }

end FlightFit
