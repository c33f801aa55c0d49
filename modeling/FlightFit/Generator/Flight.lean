import FlightFit.Delimited.Writer
import FlightFit.Generator.Profile
import FlightFit.Generator.Random
import FlightFit.Load.Columnar
import FlightFit.Transform

/-!
Module: FlightFit.Generator.Flight
Purpose: Simulated flights. Pressure and temperature drift slowly, the angle of attack follows from the
  dynamic pressure, and the fuel total from the fuel-flow model with known weights, both with noise.
Main exports: Flight, Flight.text, Flight.columnar, simulate
-/

namespace FlightFit

/-- A recorded flight: names and aligned columns. -/
structure Flight where
  names : List String
  columns : List (List Float)

namespace Flight

/-- The number of samples. -/
def samples (f : Flight) : Nat := (f.columns.headD []).length

/-- The rows of a flight. -/
def rows (f : Flight) : List (List Float) := Matrix.across 0.0 f.samples f.columns

/-- The flight as delimited text, numbers with six places. -/
def text (f : Flight) : String := Delimited.writeTable (fixedPlaces 6) f.names f.rows

/-- The flight as typed columns. -/
def columnar (f : Flight) : List TypedColumn := Columnar.ofChannels f.names f.columns

end Flight

/-- Where a flight takes place. -/
structure Conditions where
  pressure : Float
  temperature : Float
deriving Repr

/-- The weights of the simulated fuel flow, for the features of the fuel-flow transform. -/
def trueWeights : Float × Float × Float := (41000.0, 0.002, 0.0004)

/-- One row of a simulated flight, at sample `index` with a given speed. -/
def simulateRow (conditions : Conditions) (index : Nat) (v : Float) (r : Random) : List Float × Random :=
  let t := Scalar.ofNat index * timeStep
  let p := conditions.pressure * (1.0 + 0.02 * Float.sin (t / 400.0))
  let temp := conditions.temperature + 1.5 * Float.cos (t / 250.0)
  let q := v * v * p / temp
  let (sway, r) := r.normal 0.0 0.02
  let alpha := 1.5 + 4.0e6 / Random.atLeast 1.0e5 q * (1.0 + 0.15 * Float.sin (t / 35.0)) + sway
  let (w0, w1, w2) := trueWeights
  let (noise, r) := r.normal 0.0 25.0
  let total := w0 + w1 * q + w2 * q * alpha - fuelBias + noise
  ([t, v, p, temp, alpha] ++ List.replicate 8 (total / 8.0), r)

/-- The rows of a simulated flight, from sample `index` on. -/
def simulateRows (conditions : Conditions) : Nat → List Float → Random → List (List Float) × Random
  | _, [], r => ([], r)
  | index, v :: speeds, r =>
    let (row, r) := simulateRow conditions index v r
    let (rows, r) := simulateRows conditions (index + 1) speeds r
    (row :: rows, r)

/-- The channels of a simulated flight. -/
def flightNames : List String :=
  ["_zulu,_time", "true air speed", "ambient pressure", "ambient temperature", "angle of attack"] ++
    Transform.fuelChannels

/-- Ramps of simulated flights take fewer steps than this. -/
def rampLimit : Nat := 100000000

/-- Simulates a flight, drawing from a source of random numbers. -/
def simulate (legs : List (Leg Float)) (conditions : Conditions) (r : Random) : Flight × Random :=
  let speeds := (speedProfile rampLimit 0.8 legs).getD []
  let (rows, r) := simulateRows conditions 0 speeds r
  (⟨flightNames, Matrix.across 0.0 flightNames.length rows⟩, r)

end FlightFit
