import FlightFit.ErrorReport
import FlightFit.Fault
import FlightFit.LeastSquares
import FlightFit.Text.Blank

/-!
Module: FlightFit.Regressor
Purpose: The regression methods that a model can use, looked up by name, and what every method offers:
  fitting weights, predicting with them, and the error of the predictions.
Main exports: RegressorOptions, Regressor, Regressor.available, Regressor.named, Regressor.trainWith,
  Regressor.train, Regressor.predict, Regressor.residuals, Regressor.error
-/

namespace FlightFit

/-- Tuning shared by the regression methods. -/
structure RegressorOptions where
  /-- Systems with a larger condition number are refused. -/
  maxCondition : Float := 1e12
deriving Repr, BEq, Inhabited

/-- A regression method with its tuning. -/
inductive Regressor where
  | leastSquares (options : RegressorOptions)
deriving Repr, BEq

/-- An entry of the list of methods. -/
structure RegressorEntry where
  id : String
  description : String
  build : RegressorOptions → Regressor

/-- A condition number as a double. -/
def Condition.toFloat : Condition Float → Float
  | .undefined => Binary.toFloat .undefined
  | .unbounded => Binary.toFloat (.infinite false)
  | .value ratio => ratio

/-- A refused system as a fault. -/
def FitFault.toFault : FitFault Float → Fault
  | .rowCounts features targets => .shapeMismatch (.rowCounts features targets)
  | .noColumns => .shapeMismatch .noColumns
  | .tooFewRows rows => .insufficientData rows
  | .unstable condition => .instability condition.toFloat

namespace Regressor

/-- Every method, in order. -/
def available : List RegressorEntry :=
  [⟨"least_squares", "ordinary least squares via QR decomposition", .leastSquares⟩]

/-- The name of a method. -/
def id : Regressor → String
  | .leastSquares _ => "least_squares"

/-- The tuning of a method. -/
def options : Regressor → RegressorOptions
  | .leastSquares options => options

/-- The method of a name, white space around it aside. -/
def named (name : String) (options : RegressorOptions) : Except Fault Regressor :=
  match available.find? (fun entry => entry.id == trim name) with
  | some entry => .ok (entry.build options)
  | none => .error (.unknownModel (trim name))

/-- The weights that fit features to targets, by way of given routines. -/
def trainWith {M : Type → Type} [Monad M] (r : Regressor) (routines : Routines M Float) (x y : Matrix Float) :
    M (Except Fault (Matrix Float)) :=
  Except.mapError FitFault.toFault <$> routines.fit r.options.maxCondition x y

/-- The weights that fit features to targets. -/
def train (r : Regressor) (x y : Matrix Float) : Except Fault (Matrix Float) :=
  Id.run (r.trainWith Routines.own x y)

section Evaluation

variable {α : Type} [RootedScalar α]

/-- The predicted targets. -/
@[specialize]
def predict (_ : Regressor) (x weights : Matrix α) : Except Fault (Matrix α) :=
  if x.cols ≠ weights.height then .error (.shapeMismatch (.parameterRows x.cols weights.height))
  else .ok (x.mul weights)

/-- What the predictions leave of the targets. -/
@[specialize]
def residuals (r : Regressor) (x y weights : Matrix α) : Except Fault (Matrix α) := do
  let predicted ← r.predict x weights
  if h : predicted.height = y.height ∧ predicted.cols = y.cols then .ok (y.sub predicted h.1 h.2)
  else .error (.shapeMismatch (.predictions predicted.height predicted.cols y.height y.cols))

/-- The report on given residuals. -/
@[specialize]
def report (residuals : Matrix α) : Except Fault (ErrorReport α) :=
  match ErrorReport.ofResiduals residuals with
  | some report => .ok report
  | none => .error (.insufficientData 0)

/-- The error of the predictions. -/
@[specialize]
def error (r : Regressor) (x y weights : Matrix α) : Except Fault (ErrorReport α) := do
  report (← r.residuals x y weights)

end Evaluation

end Regressor

end FlightFit
