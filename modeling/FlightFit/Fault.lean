import FlightFit.Decimal.Layout

/-!
Module: FlightFit.Fault
Purpose: What can go wrong in segmenting, selecting, transforming and fitting, each cause with its data,
  and the one place where causes are put into words.
Main exports: ShapeFault, FeatureFault, Fault, Fault.message
-/

namespace FlightFit

/-- Two sizes that should agree and do not. -/
inductive ShapeFault where
  | rowCounts (features targets : Nat)
  | noColumns
  | parameterRows (featureColumns parameterRows : Nat)
  | predictions (rows cols targetRows targetCols : Nat)
  | batchColumns (features targets heldFeatures heldTargets : Nat)
  | flowChannels (found : Nat)
  | flowTargets
  | flowColumns (found : Nat)
  | systemRows (features targets rows : Nat)
  | blockValues (rows cols found : Nat)
deriving DecidableEq, Repr

/-- Why a row has no usable features. -/
inductive FeatureFault where
  | zeroTemperature
  | pressureTerm (q alpha : Float)
deriving Repr

/-- What can go wrong in segmenting, selecting, transforming and fitting. -/
inductive Fault where
  /-- Two consecutive timestamps are equal. -/
  | division (index : Nat) (time : Float)
  | emptyRange (start stop : Nat)
  /-- Not enough rows to fit, or no fitted parameters to evaluate with. -/
  | insufficientData (rows : Nat)
  | instability (condition : Float)
  | lengthMismatch (channel : String) (expected found : Nat)
  | unknownChannel (name : String)
  | outOfBounds (start stop rows : Nat)
  | invalidFeature (row : Nat) (reason : FeatureFault)
  | shapeMismatch (reason : ShapeFault)
  | unknownModel (id : String)
  | snapshotVersion (found expected : Nat)
  /-- A declared size whose product leaves the machine word and falls back onto the size at hand. -/
  | oversized (rows cols : Nat)
deriving Repr

/-- The wording of a shape fault. -/
def ShapeFault.message : ShapeFault → String
  | .rowCounts features targets =>
    s!"{digitText features} feature rows but {digitText targets} target rows"
  | .noColumns => "design matrix has no columns"
  | .parameterRows columns rows =>
    s!"{digitText columns} feature columns but {digitText rows} parameter rows"
  | .predictions rows cols targetRows targetCols =>
    s!"predictions are ({digitText rows}, {digitText cols}) but targets are " ++
      s!"({digitText targetRows}, {digitText targetCols})"
  | .batchColumns features targets heldFeatures heldTargets =>
    s!"batch is {digitText features}+{digitText targets} columns, " ++
      s!"accumulated data is {digitText heldFeatures}+{digitText heldTargets}"
  | .flowChannels found =>
    "fuel-flow transform needs 4 feature channels (speed, pressure, temperature, angle of attack), got "
      ++ digitText found
  | .flowTargets => "fuel-flow transform needs at least one target channel"
  | .flowColumns found => s!"expected 4 raw feature columns, got {digitText found}"
  | .systemRows features targets rows =>
    s!"transform produced {digitText features} feature rows and {digitText targets} target rows " ++
      s!"for a range of {digitText rows}"
  | .blockValues rows cols found =>
    s!"parameter block declares {digitText rows}x{digitText cols} but holds {digitText found} values"

/-- The wording of a feature fault. -/
def FeatureFault.message : FeatureFault → String
  | .zeroTemperature => "ambient temperature is zero"
  | .pressureTerm q alpha =>
    s!"non-finite dynamic pressure term (q = {Layout.plain.render q}, alpha = {Layout.plain.render alpha})"

/-- The wording of a fault. -/
def Fault.message : Fault → String
  | .division index time =>
    s!"zero time step between samples {digitText index} and {digitText (index + 1)} " ++
      s!"(t = {Layout.plain.render time})"
  | .emptyRange start stop => s!"empty or inverted range [{digitText start}, {digitText stop})"
  | .insufficientData rows =>
    s!"insufficient data: {digitText rows} training rows accumulated and no usable fit"
  | .instability condition =>
    s!"regression system is ill-conditioned (condition number {Layout.exponential.render condition})"
  | .lengthMismatch channel expected found =>
    s!"channel length mismatch: '{channel}' has {digitText found} samples, expected {digitText expected}"
  | .unknownChannel name => s!"unknown channel '{name}'"
  | .outOfBounds start stop rows =>
    s!"range [{digitText start}, {digitText stop}) is outside a source of {digitText rows} rows"
  | .invalidFeature row reason => s!"invalid feature value at row {digitText row}: {reason.message}"
  | .shapeMismatch reason => s!"shape mismatch: {reason.message}"
  | .unknownModel id => s!"unknown model '{id}'"
  | .snapshotVersion found expected =>
    s!"unsupported snapshot format version {digitText found} (expected {digitText expected})"
  | .oversized rows cols => s!"no room for a matrix of {digitText rows}x{digitText cols}"

end FlightFit
