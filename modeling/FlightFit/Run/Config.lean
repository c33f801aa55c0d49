import FlightFit.Codec.Transform
import FlightFit.Session

/-!
Module: FlightFit.Run.Config
Purpose: The description of one run, read from JSON. Paths in it are taken from the folder of the file,
  and what cannot work is refused before anything is loaded.
Main exports: RunConfig, RunConfig.decoder, RunConfig.resolved, RunConfig.validate, RunConfig.load
-/

namespace FlightFit

open FlightFit.Json

/-- Everything that one run needs to know. -/
structure RunConfig where
  trainFiles : List String := []
  testFiles : List String := []
  delimiter : Char := '|'
  units : Option String := none
  timeChannel : String := "_zulu,_time"
  speedChannel : String := "true air speed"
  segmentation : CruiseLimits := {}
  model : String := "least_squares"
  regressor : RegressorOptions := {}
  transform : Transform := .standard
  /-- The rows of the test table to evaluate on; all of them when absent. -/
  testRange : Option (Nat × Nat) := none
  saveModel : Option String := none
  verbose : Bool := false
deriving Repr

/-- The fields of a run description, as far as they are given, and the members that are no field. -/
structure RunFields where
  trainFiles : Option (List String) := none
  testFiles : Option (List String) := none
  delimiter : Option Char := none
  units : Option (Option String) := none
  timeChannel : Option String := none
  speedChannel : Option String := none
  segmentation : Option CruiseLimits := none
  model : Option String := none
  transform : Option Transform := none
  testRange : Option (Option (Nat × Nat)) := none
  saveModel : Option (Option String) := none
  verbose : Option Bool := none
  others : List (String × Value) := []

namespace RunConfig

/-- How a run description is read. The options of the regressor stand among the members that are no
    field. -/
def schema : Schema RunFields where
  blank := {}
  positional := false
  keep := some fun key value s => { s with others := s.others ++ [(key, value)] }
  fields := [
    .slot "train_files" (·.trainFiles) (fun s v => { s with trainFiles := v }) (Decoder.list Decoder.text),
    .slot "test_files" (·.testFiles) (fun s v => { s with testFiles := v }) (Decoder.list Decoder.text),
    .slot "delimiter" (·.delimiter) (fun s v => { s with delimiter := v }) Decoder.letter,
    .slot "units" (·.units) (fun s v => { s with units := v }) (Decoder.nullable Decoder.text),
    .slot "time_channel" (·.timeChannel) (fun s v => { s with timeChannel := v }) Decoder.text,
    .slot "speed_channel" (·.speedChannel) (fun s v => { s with speedChannel := v }) Decoder.text,
    .slot "segmentation" (·.segmentation) (fun s v => { s with segmentation := v }) CruiseLimits.decoder,
    .slot "model" (·.model) (fun s v => { s with model := v }) Decoder.text,
    .slot "transform" (·.transform) (fun s v => { s with transform := v }) Transform.decoder,
    .slot "test_range" (·.testRange) (fun s v => { s with testRange := v })
      (Decoder.nullable (Decoder.pair Decoder.size Decoder.size)),
    .slot "save_model" (·.saveModel) (fun s v => { s with saveModel := v }) (Decoder.nullable Decoder.text),
    .slot "verbose" (·.verbose) (fun s v => { s with verbose := v }) Decoder.bool]

/-- The regressor options among some members. -/
def regressorOf (others : List (String × Value)) : Option RegressorOptions :=
  match valuesAt "max_condition" others with
  | [] => some {}
  | [value] => value.float?.map fun limit => ⟨limit⟩
  | _ => none

/-- A run description; what is not given has its default. -/
def decoder : Decoder RunConfig :=
  schema.decode fun s => do
    let standard : RunConfig := {}
    some {
      trainFiles := s.trainFiles.getD standard.trainFiles
      testFiles := s.testFiles.getD standard.testFiles
      delimiter := s.delimiter.getD standard.delimiter
      units := s.units.getD standard.units
      timeChannel := s.timeChannel.getD standard.timeChannel
      speedChannel := s.speedChannel.getD standard.speedChannel
      segmentation := s.segmentation.getD standard.segmentation
      model := s.model.getD standard.model
      regressor := ← regressorOf s.others
      transform := s.transform.getD standard.transform
      testRange := s.testRange.getD standard.testRange
      saveModel := s.saveModel.getD standard.saveModel
      verbose := s.verbose.getD standard.verbose }

/-- A text that may be missing, as a JSON value. -/
def optionalText : Option String → Value
  | some text => .string text
  | none => .null

/-- The JSON form of a run description. -/
def toValue (c : RunConfig) : Value :=
  .object [("train_files", .texts c.trainFiles), ("test_files", .texts c.testFiles),
    ("delimiter", .string (String.ofList [c.delimiter])), ("units", optionalText c.units),
    ("time_channel", .string c.timeChannel), ("speed_channel", .string c.speedChannel),
    ("segmentation", c.segmentation.toValue), ("model", .string c.model),
    ("max_condition", .real c.regressor.maxCondition), ("transform", c.transform.toValue),
    ("test_range", match c.testRange with
      | some (start, stop) => .array [.whole start, .whole stop]
      | none => .null),
    ("save_model", optionalText c.saveModel), ("verbose", .bool c.verbose)]

/-- The description with its paths taken from a folder. -/
def resolved (folder : String) (c : RunConfig) : RunConfig :=
  { c with
    trainFiles := c.trainFiles.map (Path.join folder)
    testFiles := c.testFiles.map (Path.join folder)
    units := c.units.map (Path.join folder)
    saveModel := c.saveModel.map (Path.join folder) }

/-- A delimiter that is a single byte. -/
def delimiterByte (c : Char) : Except Failure UInt8 :=
  if c.toNat < 128 then .ok c.toUInt8
  else .error (.ofText s!"delimiter '{String.ofList [c]}' is not a single-byte character")

/-- Refuses a description that cannot work. -/
def validate (c : RunConfig) : Except Failure Unit := do
  if c.trainFiles.isEmpty then throw (.ofText "config lists no training files")
  let _ ← delimiterByte c.delimiter
  if !(0.0 < c.segmentation.accelTolerance) then
    throw (.ofText
      s!"accel_tolerance must be positive, got {Layout.plain.render c.segmentation.accelTolerance}")
  if !(1.0 < c.regressor.maxCondition) then
    throw (.ofText s!"max_condition must exceed 1, got {Layout.plain.render c.regressor.maxCondition}")
  match c.testRange with
  | none => pure ()
  | some (start, stop) => match Window.checked start stop with
    | .ok _ => pure ()
    | .error fault => throw ⟨["invalid test_range"], .fault fault⟩

/-- The run description in a file. -/
def load (path : String) : Action RunConfig := do
  let text ← Action.during s!"reading config {path}" (Action.readText path)
  let config ← Action.during s!"parsing config {path}" (Action.decode (decoder.run text))
  let config := match Path.parent? path with
    | some folder => config.resolved folder
    | none => config
  Action.conclude config.validate
  pure config

end RunConfig

end FlightFit
