import FlightFit.Codec.Transform
import FlightFit.Json.Printer
import FlightFit.Model.Snapshot

/-!
Module: FlightFit.Codec.Snapshot
Purpose: The JSON form of stored models. Options that are missing have their defaults; the in-sample
  report may be missing or null, and is left out when there is none.
Main exports: Snapshot.decoder, Snapshot.toValue, Snapshot.text, Snapshot.ofText
-/

namespace FlightFit

open FlightFit.Json

/-- The fields of a parameter block, as far as they are given. -/
structure BlockFields where
  rows : Option Nat := none
  cols : Option Nat := none
  values : Option (List Float) := none

/-- How a parameter block is read. -/
def ParameterBlock.schema : Schema BlockFields where
  blank := {}
  fields := [
    .slot "rows" (·.rows) (fun s v => { s with rows := v }) Decoder.size,
    .slot "cols" (·.cols) (fun s v => { s with cols := v }) Decoder.size,
    .slot "values" (·.values) (fun s v => { s with values := v }) (Decoder.list Decoder.float)]

/-- A parameter block. -/
def ParameterBlock.decoder : Decoder ParameterBlock :=
  ParameterBlock.schema.decode fun s => do some ⟨← s.rows, ← s.cols, ← s.values⟩

/-- The JSON form of a parameter block. -/
def ParameterBlock.toValue (b : ParameterBlock) : Value :=
  .object [("rows", .whole b.rows), ("cols", .whole b.cols), ("values", .reals b.values)]

/-- The fields of snapshot metadata, as far as they are given. -/
structure MetadataFields where
  trainedRows : Option Nat := none
  inSample : Option (Option (ErrorReport Float)) := none
  version : Option String := none

/-- How snapshot metadata are read. -/
def SnapshotMetadata.schema : Schema MetadataFields where
  blank := {}
  fields := [
    .slot "trained_rows" (·.trainedRows) (fun s v => { s with trainedRows := v }) Decoder.size,
    .slot "in_sample" (·.inSample) (fun s v => { s with inSample := v })
      (Decoder.nullable ErrorReport.decoder),
    .slot "crate_version" (·.version) (fun s v => { s with version := v }) Decoder.text]

/-- Snapshot metadata. -/
def SnapshotMetadata.decoder : Decoder SnapshotMetadata :=
  SnapshotMetadata.schema.decode fun s => do some ⟨← s.trainedRows, s.inSample.getD none, ← s.version⟩

/-- The JSON form of snapshot metadata. -/
def SnapshotMetadata.toValue (m : SnapshotMetadata) : Value :=
  let report := match m.inSample with
    | some report => [("in_sample", report.toValue)]
    | none => []
  .object ([("trained_rows", .whole m.trainedRows)] ++ report ++ [("crate_version", .string m.version)])

/-- The fields of a snapshot, as far as they are given. -/
structure SnapshotFields where
  formatVersion : Option Nat := none
  model : Option String := none
  options : Option RegressorOptions := none
  transform : Option Transform := none
  parameters : Option ParameterBlock := none
  metadata : Option SnapshotMetadata := none

namespace Snapshot

/-- Format versions are below this. -/
def versionLimit : Nat := Nat.pow 2 32

/-- How a snapshot is read. -/
def schema : Schema SnapshotFields where
  blank := {}
  fields := [
    .slot "format_version" (·.formatVersion) (fun s v => { s with formatVersion := v })
      (Decoder.below versionLimit),
    .slot "model" (·.model) (fun s v => { s with model := v }) Decoder.text,
    .slot "options" (·.options) (fun s v => { s with options := v }) RegressorOptions.decoder,
    .slot "transform" (·.transform) (fun s v => { s with transform := v }) Transform.decoder,
    .slot "parameters" (·.parameters) (fun s v => { s with parameters := v }) ParameterBlock.decoder,
    .slot "metadata" (·.metadata) (fun s v => { s with metadata := v }) SnapshotMetadata.decoder]

/-- A snapshot. -/
def decoder : Decoder Snapshot :=
  schema.decode fun s => do
    some ⟨← s.formatVersion, ← s.model, s.options.getD {}, ← s.transform, ← s.parameters, ← s.metadata⟩

/-- The JSON form of a snapshot. -/
def toValue (s : Snapshot) : Value :=
  .object [("format_version", .whole s.formatVersion), ("model", .string s.model),
    ("options", s.options.toValue), ("transform", s.transform.toValue),
    ("parameters", s.parameters.toValue), ("metadata", s.metadata.toValue)]

/-- The text of a snapshot file. -/
def text (s : Snapshot) : String := s.toValue.render .pretty

/-- The snapshot in a text, of any version. -/
def ofText (text : String) : Except Defect Snapshot := decoder.run text

end Snapshot

end FlightFit
