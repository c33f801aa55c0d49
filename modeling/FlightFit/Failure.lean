import FlightFit.Fault
import FlightFit.Json.Basic
import FlightFit.Store.Basic

/-!
Module: FlightFit.Failure
Purpose: Failures of work on files: a cause, and what was being done when it came up, from the outermost
  activity inwards.
Main exports: Cause, Failure, Failure.message, Failure.headline, Failure.trace
-/

namespace FlightFit

/-- What a failure comes from. -/
inductive Cause where
  | fault (fault : Fault)
  | json (defect : Json.Defect)
  | store (fault : StoreFault)
  /-- A field of delimited text is not UTF-8. -/
  | encoding
  /-- A file is not in the columnar format. -/
  | columnar
  | literal (fault : LiteralFault)
  | other (text : String)
deriving Repr

/-- The wording of a cause. -/
def Cause.message : Cause → String
  | .fault f => f.message
  | .json .malformed => "malformed JSON"
  | .json .mistyped => "unexpected JSON data"
  | .store f => f.message
  | .encoding => "invalid UTF-8 in a field"
  | .columnar => "not a columnar file"
  | .literal f => f.message
  | .other text => text

/-- A cause in its context, the outermost activity first. -/
structure Failure where
  context : List String
  cause : Cause
deriving Repr

namespace Failure

/-- A failure without context. -/
def ofCause (cause : Cause) : Failure := ⟨[], cause⟩

/-- A failure in words of its own. -/
def ofText (text : String) : Failure := ⟨[], .other text⟩

/-- An outcome whose faults are causes. -/
def ofResult {α : Type} (result : Except Fault α) : Except Failure α :=
  result.mapError fun fault => ofCause (.fault fault)

/-- The same failure in a wider context. -/
def within (activity : String) (f : Failure) : Failure := { f with context := activity :: f.context }

/-- The whole failure in words. -/
def message (f : Failure) : String := ": ".intercalate (f.context ++ [f.cause.message])

/-- The outermost part of the message. -/
def headline (f : Failure) : String := f.context.headD f.cause.message

/-- The parts of the message after the outermost one. -/
def reasons (f : Failure) : List String := (f.context ++ [f.cause.message]).tail

/-- The failure over several lines: the outermost part, then what it comes from, numbered when that is
    more than one part. -/
def trace (f : Failure) : String :=
  f.headline ++ match f.reasons with
    | [] => ""
    | [reason] => s!"\n\nCaused by:\n    {reason}"
    | reasons =>
      "\n\nCaused by:" ++ String.join (reasons.mapIdx fun i reason => s!"\n    {digitText i}: {reason}")

end Failure

end FlightFit
