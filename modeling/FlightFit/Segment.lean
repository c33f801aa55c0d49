import FlightFit.Window
import FlightFit.Scalar

/-!
Module: FlightFit.Segment
Purpose: Cruise windows of a flight: the maximal runs of steady samples that are long enough. A sample
  is steady when time moves on to the next one, the acceleration to it is small and the speed is high.
  A run ends where time runs backwards, so no window spans the seam between two flights.
Main exports: accelerations, CruiseLimits, steadyMarks, runs, steadyRuns, steadyWindows
-/

namespace FlightFit

/-- Thresholds of cruise; all three comparisons are strict. -/
structure CruiseLimits where
  /-- Accelerations stay below this in absolute value. -/
  accelTolerance : Float := 0.01
  /-- Speeds are above this. -/
  minSpeed : Float := 10.0
  /-- Windows are longer than this. -/
  minLength : Nat := 200
deriving Repr, Inhabited

/-- The quotients of consecutive differences; `index` is the position of the first sample. -/
def quotients (index : Nat) : List Float → List Float → Except Fault (List Float)
  | v :: v' :: speed, t :: t' :: time =>
    let dt := t' - t
    if dt == 0.0 then .error (.division index t)
    else do
      let rest ← quotients (index + 1) (v' :: speed) (t' :: time)
      .ok ((v' - v) / dt :: rest)
  | _, _ => .ok []

/-- Accelerations, one for each two consecutive samples. -/
def accelerations (speed time : List Float) : Except Fault (List Float) :=
  if speed.length = time.length then quotients 0 speed time
  else .error (.lengthMismatch "time" speed.length time.length)

/-- Whether a sample is steady, given its speed, the acceleration to the next one and both times. -/
def isSteady (limits : CruiseLimits) (speed accel time nextTime : Float) : Bool :=
  time < nextTime && Scalar.abs accel < limits.accelTolerance && limits.minSpeed < speed

/-- Marks the samples that are steady, all but the last one. -/
def steadyMarks (limits : CruiseLimits) : List Float → List Float → List Float → List Bool
  | v :: speed, a :: accel, t :: t' :: time =>
    isSteady limits v a t t' :: steadyMarks limits speed accel (t' :: time)
  | _, _, _ => []

/-- The maximal runs of set marks; `index` is the position of the first mark and `opened` the start of a
    run that goes on. -/
def runs (index : Nat) (opened : Option Nat) : List Bool → List Window
  | [] => match opened with
    | some start => [⟨start, index⟩]
    | none => []
  | mark :: marks => match mark, opened with
    | true, none => runs (index + 1) (some index) marks
    | false, some start => ⟨start, index⟩ :: runs (index + 1) none marks
    | _, _ => runs (index + 1) opened marks

/-- The maximal runs of steady samples, of any length. -/
def steadyRuns (limits : CruiseLimits) (speed time : List Float) : Except Fault (List Window) := do
  let accel ← accelerations speed time
  .ok (runs 0 none (steadyMarks limits speed accel time))

/-- The cruise windows, in order. -/
def steadyWindows (limits : CruiseLimits) (speed time : List Float) : Except Fault (List Window) := do
  let found ← steadyRuns limits speed time
  .ok (found.filter fun w => limits.minLength < w.len)

end FlightFit
