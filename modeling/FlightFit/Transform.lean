import FlightFit.Table

/-!
Module: FlightFit.Transform
Purpose: From raw channels to a regression system. The fuel-flow transform takes speed `v`, pressure `p`,
  temperature `T` and angle of attack `α`, forms `q = v²·p/T`, proportional to dynamic pressure, and uses
  the features `1, q, q·α`; its target is the sum of the fuel channels plus a constant. The linear
  transform uses the raw channels as they are, with an optional column of ones in front.
Main exports: Transform, Transform.checked, Transform.design, Transform.response, Transform.build
-/

namespace FlightFit

/-- A way to make features and targets from raw channels. -/
inductive Transform where
  | fuelFlow (features targets : List String) (bias : Float)
  | linear (features targets : List String) (intercept : Bool)
deriving Repr, BEq

/-- Pound-force in newton. -/
def newtonsPerPound : Float := 4.448221628254617

/-- The fixed correction that is added to the summed fuel channels. -/
def fuelBias : Float := 8506.0 * newtonsPerPound

namespace Transform

/-- The names of the fuel channels. -/
def fuelChannels : List String :=
  ["fuel 1", "fuel 2", "fuel 3", "fuel 4", "fuel 5", "fuel 6", "fuel 7", "fuel 8"]

/-- The transform that is used when none is given. -/
def standard : Transform :=
  .fuelFlow ["true air speed", "ambient pressure", "ambient temperature", "angle of attack"]
    fuelChannels fuelBias

/-- The name of the kind of transform. -/
def kind : Transform → String
  | .fuelFlow .. => "fuel_flow"
  | .linear .. => "linear"

/-- The raw channels that features are made from. -/
def features : Transform → List String
  | .fuelFlow features _ _ => features
  | .linear features _ _ => features

/-- The raw channels that targets are made from. -/
def targets : Transform → List String
  | .fuelFlow _ targets _ => targets
  | .linear _ targets _ => targets

/-- A transform that can be used: fuel flow takes four features and at least one target. -/
def checked (t : Transform) : Except Fault Transform :=
  match t with
  | .fuelFlow features targets _ =>
    if features.length ≠ 4 then .error (.shapeMismatch (.flowChannels features.length))
    else if targets.isEmpty then .error (.shapeMismatch .flowTargets)
    else .ok t
  | .linear .. => .ok t

/-- The dynamic pressure term and its product with the angle of attack, for row `index`. -/
def flowTerms (index : Nat) (v p t alpha : Float) : Except Fault (Float × Float) :=
  if t == 0.0 then .error (.invalidFeature index .zeroTemperature)
  else
    let q := v * v * p / t
    let qAlpha := q * alpha
    if q.isFinite && qAlpha.isFinite then .ok (q, qAlpha)
    else .error (.invalidFeature index (.pressureTerm q alpha))

/-- The terms of the rows from `index` on. -/
def flowRows (index : Nat) : List (List Float) → Except Fault (List (Float × Float))
  | [] => .ok []
  | row :: rest => do
    let terms ← match row with
      | [v, p, t, alpha] => flowTerms index v p t alpha
      | _ => .error (.shapeMismatch (.flowColumns row.length))
    let more ← flowRows (index + 1) rest
    .ok (terms :: more)

/-- The feature rows of the fuel-flow transform. -/
def flowMatrix (terms : List (Float × Float)) : Matrix Float :=
  .ofRows 3 (terms.map fun term => [1.0, term.1, term.2]) fun row h => by
    obtain ⟨_, _, rfl⟩ := List.mem_map.1 h
    rfl

/-- The features of raw feature channels. -/
def design (t : Transform) (raw : Matrix Float) : Except Fault (Matrix Float) :=
  match t with
  | .fuelFlow .. =>
    if raw.cols ≠ 4 then .error (.shapeMismatch (.flowColumns raw.cols))
    else (flowRows 0 raw.rows).map flowMatrix
  | .linear _ _ intercept => .ok (if intercept then raw.prepend 1.0 else raw)

/-- The one target column of the fuel-flow transform. -/
def flowTargets (bias : Float) (raw : Matrix Float) : Matrix Float :=
  raw.mapRows 1 (fun row => [Scalar.sum row + bias]) fun _ => rfl

/-- The targets of raw target channels. -/
def response (t : Transform) (raw : Matrix Float) : Matrix Float :=
  match t with
  | .fuelFlow _ _ bias => flowTargets bias raw
  | .linear .. => raw

/-- Features and targets, if both have a given number of rows. -/
def alignedSystem (rows : Nat) (x y : Matrix Float) : Except Fault (Matrix Float × Matrix Float) :=
  if x.height = rows ∧ y.height = rows then .ok (x, y)
  else .error (.shapeMismatch (.systemRows x.height y.height rows))

/-- Features and targets of a window of a table, a row of each for every row of the window. -/
def build (t : Transform) (table : Table) (w : Window) : Except Fault (Matrix Float × Matrix Float) := do
  let rawFeatures ← table.select t.features w
  let rawTargets ← table.select t.targets w
  let x ← t.design rawFeatures
  alignedSystem w.len x (t.response rawTargets)

end Transform

end FlightFit
