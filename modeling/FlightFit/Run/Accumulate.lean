import FlightFit.Model.Operation

/-!
Module: FlightFit.Run.Accumulate
Purpose: Reading a list of windows into a model. A window that the model refuses is skipped, and the
  windows after it are read all the same.
Main exports: accumulate, SkippedWindow, skippedWindows, accumulateEvents
-/

namespace FlightFit

/-- A window that could not be used, and why. -/
structure SkippedWindow where
  window : Window
  fault : Fault
deriving Repr

/-- Reads windows one after the other and tells what became of each. -/
def accumulate (m : Model) (table : Table) :
    List Window → Model × List (Window × Except Fault Model.Reading)
  | [] => (m, [])
  | w :: rest =>
    match m.read table w with
    | .ok (next, reading) =>
      let (last, outcomes) := accumulate next table rest
      (last, (w, .ok reading) :: outcomes)
    | .error fault =>
      let (last, outcomes) := accumulate m table rest
      (last, (w, .error fault) :: outcomes)

/-- The windows that were skipped, in order. -/
def skippedWindows (outcomes : List (Window × Except Fault Model.Reading)) : List SkippedWindow :=
  outcomes.filterMap fun (w, outcome) => match outcome with
    | .ok _ => none
    | .error fault => some ⟨w, fault⟩

/-- What is reported about the windows. -/
def accumulateEvents (outcomes : List (Window × Except Fault Model.Reading)) : List Event :=
  outcomes.flatMap fun (w, outcome) => match outcome with
    | .ok reading => reading.events w
    | .error fault => [.windowSkipped w fault]

end FlightFit
