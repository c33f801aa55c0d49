import FlightFit.ErrorReport
import FlightFit.Json.Decode
import FlightFit.Regressor
import FlightFit.Segment
import FlightFit.Units

/-!
Module: FlightFit.Codec.Basic
Purpose: JSON forms of the small records: conversions, cruise thresholds, regressor options, windows and
  error reports.
Main exports: UnitConverter.decoder, CruiseLimits.decoder, RegressorOptions.decoder,
  ErrorReport.decoder and the functions to JSON
-/

namespace FlightFit

open FlightFit.Json

/-- A double as a JSON value. -/
def Json.Value.real (x : Float) : Value := .number (.real x)

/-- A natural number as a JSON value. -/
def Json.Value.whole (n : Nat) : Value := .number (.whole n)

/-- A list of texts as a JSON value. -/
def Json.Value.texts (texts : List String) : Value := .array (texts.map .string)

/-- A list of doubles as a JSON value. -/
def Json.Value.reals (xs : List Float) : Value := .array (xs.map .real)

/-- The fields of a conversion, as far as they are given. -/
structure ConversionFields where
  scale : Option Float := none
  offset : Option Float := none

/-- How a conversion is read. -/
def Conversion.schema : Schema ConversionFields where
  blank := {}
  fields := [
    .slot "scale" (·.scale) (fun s v => { s with scale := v }) Decoder.float,
    .slot "offset" (·.offset) (fun s v => { s with offset := v }) Decoder.float]

/-- A conversion; without an offset it has none. -/
def Conversion.decoder : Decoder Conversion :=
  Conversion.schema.decode fun s => s.scale.map fun scale => ⟨scale, s.offset.getD 0.0⟩

/-- A converter: an object with a conversion for each channel. -/
def UnitConverter.decoder : Decoder UnitConverter := fun depth json =>
  (Decoder.table Conversion.decoder depth json).map .ofList

/-- The JSON form of a converter. -/
def UnitConverter.toValue (c : UnitConverter) : Value :=
  .object (c.conversions.map fun (name, conversion) =>
    (name, .object [("scale", .real conversion.scale), ("offset", .real conversion.offset)]))

/-- The fields of cruise thresholds, as far as they are given. -/
structure CruiseFields where
  accelTolerance : Option Float := none
  minSpeed : Option Float := none
  minLength : Option Nat := none

/-- How cruise thresholds are read. -/
def CruiseLimits.schema : Schema CruiseFields where
  blank := {}
  fields := [
    .slot "accel_tolerance" (·.accelTolerance) (fun s v => { s with accelTolerance := v }) Decoder.float,
    .slot "min_speed" (·.minSpeed) (fun s v => { s with minSpeed := v }) Decoder.float,
    .slot "min_length" (·.minLength) (fun s v => { s with minLength := v }) Decoder.size]

/-- Cruise thresholds; those not given have their defaults. -/
def CruiseLimits.decoder : Decoder CruiseLimits :=
  CruiseLimits.schema.decode fun s =>
    let standard : CruiseLimits := {}
    some {
      accelTolerance := s.accelTolerance.getD standard.accelTolerance
      minSpeed := s.minSpeed.getD standard.minSpeed
      minLength := s.minLength.getD standard.minLength }

/-- The JSON form of cruise thresholds. -/
def CruiseLimits.toValue (l : CruiseLimits) : Value :=
  .object [("accel_tolerance", .real l.accelTolerance), ("min_speed", .real l.minSpeed),
    ("min_length", .whole l.minLength)]

/-- How regressor options are read. -/
def RegressorOptions.schema : Schema (Option Float) where
  blank := none
  fields := [.slot "max_condition" id (fun _ v => v) Decoder.float]

/-- Regressor options; those not given have their defaults. -/
def RegressorOptions.decoder : Decoder RegressorOptions :=
  RegressorOptions.schema.decode fun s =>
    let standard : RegressorOptions := {}
    some ⟨s.getD standard.maxCondition⟩

/-- The JSON form of regressor options. -/
def RegressorOptions.toValue (o : RegressorOptions) : Value :=
  .object [("max_condition", .real o.maxCondition)]

/-- The JSON form of a window. -/
def Window.toValue (w : Window) : Value := .object [("start", .whole w.start), ("end", .whole w.stop)]

/-- The fields of an error report, as far as they are given. -/
structure ReportFields where
  rmse : Option (List Float) := none
  se : Option (List Float) := none
  rows : Option Nat := none

/-- How an error report is read. -/
def ErrorReport.schema : Schema ReportFields where
  blank := {}
  fields := [
    .slot "RMSE" (·.rmse) (fun s v => { s with rmse := v }) (Decoder.list Decoder.float),
    .slot "SE" (·.se) (fun s v => { s with se := v }) (Decoder.list Decoder.float),
    .slot "rows" (·.rows) (fun s v => { s with rows := v }) Decoder.size]

/-- An error report. -/
def ErrorReport.decoder : Decoder (ErrorReport Float) :=
  ErrorReport.schema.decode fun s => do some ⟨← s.rmse, ← s.se, ← s.rows⟩

/-- The JSON form of an error report. -/
def ErrorReport.toValue (r : ErrorReport Float) : Value :=
  .object [("RMSE", .reals r.rmse), ("SE", .reals r.se), ("rows", .whole r.rows)]

end FlightFit
