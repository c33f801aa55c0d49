import FlightFit.Command.Execute
import FlightFit.Command.Sources

/-!
Module: FlightFit.Main
Purpose: The command line program. Files are fetched from the disk into a store, the command is done on
  the store, and what it has written there goes back to the disk. Everything in between is pure.
Main exports: main
-/

namespace FlightFit

/-- What an opened path leads to: a folder can be opened, and only reading it fails. -/
def readOpened (handle : IO.FS.Handle) : IO Entry := do
  try
    return .file (.bytes (← handle.readBinToEnd))
  catch _ =>
    return .folder

/-- What lies at a path on the disk, if anything. -/
def fetch (path : String) : IO (Option Entry) := do
  try
    return some (← readOpened (← IO.FS.Handle.mk path .read))
  catch _ =>
    return none

/-- Fetches files into a store; those that are missing on the disk are missing in the store. -/
def fetchAll (store : Store) (paths : List String) : IO Store :=
  paths.foldlM (fun store path => do
    match ← fetch path with
    | some entry => return store.place path entry
    | none => return store) store

/-- Fetches every file that a command line needs. -/
def prepare (words : List String) : IO Store := do
  match Request.parse words with
  | some (.invoke invocation) =>
    let store ← fetchAll .empty invocation.command.sources
    fetchAll store (invocation.command.furtherSources store)
  | _ => return .empty

/-- Puts an entry on the disk, with the folders around it. Columnar files are not written. -/
def deliver (path : String) : Entry → IO Unit
  | .folder => IO.FS.createDirAll path
  | .file (.bytes data) => do
    match Path.parent? path with
    | some "" => pure ()
    | some folder => IO.FS.createDirAll folder
    | none => pure ()
    IO.FS.writeBinFile path data
  | .file (.columns _) => pure ()

/-- Whether a command line asks for every report. -/
def wantsDetail (words : List String) : Bool :=
  match Request.parse words with
  | some (.invoke invocation) => invocation.verbose
  | _ => false

/-- Shows the reports that matter. -/
def showEvents (detail : Bool) (events : List Event) : IO Unit :=
  events.forM fun event => do
    if detail || event.level != .debug then
      IO.eprintln s!"[{event.level.text}] {event.text}"

/-- Does what the words of a command line ask for, and gives the exit code. -/
def runProgram (words : List String) : IO UInt32 := do
  let store ← prepare words
  let (outcome, session) := respond words ⟨store, []⟩
  showEvents (wantsDetail words) session.log
  (store.written session.store).forM fun (path, entry) => deliver path entry
  match outcome with
  | .printed text => IO.print text
  | .failed failure => IO.eprintln s!"Error: {failure.trace}"
  | .misused => IO.eprint usage
  return outcome.code.toUInt32

end FlightFit

/-- The program. -/
def main (words : List String) : IO UInt32 := FlightFit.runProgram words
