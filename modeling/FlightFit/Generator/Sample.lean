import FlightFit.Codec.Basic
import FlightFit.Generator.Flight
import FlightFit.Json.Printer
import FlightFit.Session

/-!
Module: FlightFit.Generator.Sample
Purpose: A set of sample files to try a run on: three simulated flights, each as delimited text and as a
  columnar file, and a run description that trains on two of them and tests on the third.
Main exports: sampleFlights, sampleRun, writeSamples
-/

namespace FlightFit

open FlightFit.Action FlightFit.Json

/-- A flight of the sample set. -/
structure SampleFlight where
  stem : String
  legs : List (Leg Float)
  conditions : Conditions

/-- The flights of the sample set. -/
def sampleFlights : List SampleFlight := [
  ⟨"high_power", [⟨125.0, 150.0⟩, ⟨115.0, 120.0⟩, ⟨3.0, 10.0⟩], ⟨57000.0, 255.0⟩⟩,
  ⟨"medium_power", [⟨105.0, 150.0⟩, ⟨98.0, 120.0⟩, ⟨3.0, 10.0⟩], ⟨62000.0, 260.0⟩⟩,
  ⟨"low_power", [⟨88.0, 150.0⟩, ⟨82.0, 120.0⟩, ⟨3.0, 10.0⟩], ⟨70000.0, 268.0⟩⟩]

/-- The run description of the sample set. -/
def sampleRun : Value :=
  .object [("save_model", .string "models/fuel_flow.json"),
    ("segmentation", .object [("accel_tolerance", .real 0.01), ("min_length", .whole 200),
      ("min_speed", .real 10.0)]),
    ("test_files", .texts ["low_power.parquet"]),
    ("train_files", .texts ["high_power.txt", "medium_power.txt"])]

/-- Writes sample flights, drawing on one source, and tells what was written. -/
def writeFlights (folder : String) (r : Random) : List SampleFlight → Action (List String)
  | [] => pure []
  | sample :: rest => do
    let (flight, r) := simulate sample.legs sample.conditions r
    let text := Path.join folder (sample.stem ++ ".txt")
    writeText text flight.text
    let columnar := Path.join folder (sample.stem ++ ".parquet")
    amend fun store => store.write columnar (.columns flight.columnar)
    let line := s!"Wrote {digitText flight.samples} samples ({digitText flight.names.length} channels) " ++
      s!"to {text} and {columnar}"
    let lines ← writeFlights folder r rest
    pure (line :: lines)

/-- Writes the sample set into a folder and tells what was written. -/
def writeSamples (folder : String) : Action (List String) := do
  makeFolders folder
  let lines ← writeFlights folder (.seeded 42) sampleFlights
  let config := Path.join folder "sample_run.json"
  writeText config (sampleRun.render .pretty)
  pure (lines ++ [s!"Wrote run configuration to {config}"])

end FlightFit
