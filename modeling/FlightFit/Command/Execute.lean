import FlightFit.Command.Arguments
import FlightFit.Run.Pipeline

/-!
Module: FlightFit.Command.Execute
Purpose: Doing what a command asks for; the answer is the text to print.
Main exports: Invocation.execute, Outcome, respond
-/

namespace FlightFit

open FlightFit.Action FlightFit.Json

/-- A value as a text of lines. -/
def printed (value : Value) : String := value.render .pretty ++ "\n"

/-- A text filled up with blanks to a width. -/
def padRight (width : Nat) (text : String) : String :=
  text ++ String.ofList (List.replicate (width - text.length) ' ')

/-- The list of methods. -/
def modelsText : String :=
  String.join (Regressor.available.map fun entry => padRight 16 entry.id ++ " " ++ entry.description ++ "\n")

/-- The cruise windows of some files. -/
def segmentFiles (inputs : List String) (delimiter : Char) (speed time : String) (limits : CruiseLimits)
    (units : Option String) : Action (List Window) := do
  let converter ← loadOptionalUnits units
  let byte ← conclude (RunConfig.delimiterByte delimiter)
  let table ← loadAll byte converter inputs
  let speed ← attempt (table.channel speed)
  let time ← attempt (table.channel time)
  findWindows limits speed time

/-- The error of a saved model on some files. -/
def evaluateFiles (model : String) (inputs : List String) (delimiter : Char) (units : Option String)
    (start : Nat) (stop : Option Nat) (verbose : Bool) : Action (ErrorReport Float) := do
  let snapshot ← Snapshot.load model
  let restored ← during s!"restoring {model}" (attempt (Model.ofSnapshot snapshot))
  let converter ← loadOptionalUnits units
  let byte ← conclude (RunConfig.delimiterByte delimiter)
  let table ← loadAll byte converter inputs
  let window ← attempt (Window.checked start (stop.getD table.rows))
  outSampleReport restored table window verbose

/-- Does what an invocation asks for. -/
def Invocation.execute (i : Invocation) : Action String :=
  match i.command with
  | .fit config => do
    let config ← RunConfig.load config
    let report ← run { config with verbose := config.verbose || i.verbose }
    pure (printed report.toValue)
  | .segment inputs delimiter speed time limits units => do
    let windows ← segmentFiles inputs delimiter speed time limits units
    pure (printed (.array (windows.map Window.toValue)))
  | .evaluate model inputs delimiter units start stop => do
    let report ← evaluateFiles model inputs delimiter units start stop i.verbose
    pure (printed report.toValue)
  | .models => pure modelsText

/-- How a program ends. -/
inductive Outcome where
  | printed (text : String)
  | failed (failure : Failure)
  | misused
deriving Repr

/-- The exit code of an outcome. -/
def Outcome.code : Outcome → Nat
  | .printed _ => 0
  | .failed _ => 1
  | .misused => 2

/-- How to use the program. -/
def usage : String :=
  "Cruise fuel-flow model fitting\n\n" ++
  "fit --config FILE\n" ++
  "segment FILE... [--delimiter C] [--speed NAME] [--time NAME] [--accel-tolerance X] [--min-speed X]\n" ++
  "  [--min-length N] [--units FILE]\n" ++
  "evaluate --model FILE FILE... [--delimiter C] [--units FILE] [--start N] [--end N]\n" ++
  "models\n"

/-- What the program does with the words of a command line. -/
def respond (words : List String) (session : Session) : Outcome × Session :=
  match Request.parse words with
  | none => (.misused, session)
  | some .help => (.printed usage, session)
  | some .version => (.printed (programVersion ++ "\n"), session)
  | some (.invoke invocation) =>
    match invocation.execute.runOn session with
    | (.ok text, session) => (.printed text, session)
    | (.error failure, session) => (.failed failure, session)

end FlightFit
