import FlightFit.Event
import FlightFit.Failure

/-!
Module: FlightFit.Session
Purpose: Work that reads and writes files and reports on itself, as a pure computation: it runs on a
  store and a log, which it leaves changed also when it fails.
Main exports: Session, Action, Action.report, Action.attempt, Action.during, Action.readText,
  Action.makeFolders
-/

namespace FlightFit

/-- The files and the reports so far. -/
structure Session where
  store : Store
  log : List Event

/-- Work in a session. -/
abbrev Action (α : Type) := ExceptT Failure (StateM Session) α

namespace Action

variable {α : Type}

/-- Adds reports to the log. -/
def reportAll (events : List Event) : Action Unit :=
  modify fun session => { session with log := session.log ++ events }

/-- Adds a report to the log. -/
def report (event : Event) : Action Unit := reportAll [event]

/-- Fails with a cause. -/
def fail (cause : Cause) : Action α := throw (.ofCause cause)

/-- Takes over the outcome of a computation without effects. -/
def conclude : Except Failure α → Action α
  | .ok value => pure value
  | .error failure => throw failure

/-- Takes over an outcome whose faults are causes. -/
def attempt : Except Fault α → Action α
  | .ok value => pure value
  | .error fault => fail (.fault fault)

/-- Names what an action does, for the message if it fails. -/
def during (activity : String) (action : Action α) : Action α :=
  tryCatch action fun failure => throw (failure.within activity)

/-- A question to the store. -/
def consult (question : Store → Except StoreFault α) : Action α := do
  match question (← get).store with
  | .ok value => pure value
  | .error fault => fail (.store fault)

/-- A change of the store. -/
def amend (change : Store → Except StoreFault Store) : Action Unit := do
  let store ← consult change
  modify fun session => { session with store }

/-- Makes a folder and those around it. What was made before a failure stays. -/
def makeFolders (path : String) : Action Unit := do
  let (store, fault) := (← get).store.makeFolders path
  modify fun session => { session with store }
  match fault with
  | none => pure ()
  | some fault => fail (.store fault)

/-- The text of a file. -/
def readText (path : String) : Action String := consult fun store => store.readText path

/-- Writes a text file. -/
def writeText (path text : String) : Action Unit :=
  amend fun store => store.write path (.bytes text.toUTF8)

/-- The value that a text stands for in JSON. -/
def decode (result : Except Json.Defect α) : Action α :=
  match result with
  | .ok value => pure value
  | .error defect => fail (.json defect)

/-- Runs an action on a session. -/
def runOn (action : Action α) (session : Session) : Except Failure α × Session :=
  (action.run.run session : Id _)

end Action

end FlightFit
