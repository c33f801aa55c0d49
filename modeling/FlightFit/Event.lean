import FlightFit.ErrorReport
import FlightFit.Window

/-!
Module: FlightFit.Event
Purpose: What the program reports about its work while it goes on, as data, with the wording of each
  report and how much it matters.
Main exports: Event, Event.level, Event.text
-/

namespace FlightFit

/-- How much a report matters. -/
inductive Level where
  | debug
  | info
  | warn
deriving DecidableEq, Repr

/-- The name of a level. -/
def Level.text : Level → String
  | .debug => "DEBUG"
  | .info => "INFO"
  | .warn => "WARN"

/-- A report on work done. -/
inductive Event where
  | segmented (samples runs kept minLength : Nat)
  | converted (count : Nat)
  | loaded (rows channels : Nat) (path : String)
  | windowsFound (count samples : Nat)
  | windowSkipped (window : Window) (fault : Fault)
  | fitDropped
  | rowsRead (added : Nat) (window : Window) (total : Nat)
  | assessed (rows cols : Nat) (condition : Float)
  | trained (model : String) (rows parameters targets : Nat)
  | residuals (label : String) (summary : ResidualSummary)
  | quality (label : String) (report : ErrorReport Float)
  | saved (model path : String)
deriving Repr

/-- Written out from 0.0001 to below 10^16, with a point in every case; otherwise with an exponent. -/
def Layout.listed : Layout := ⟨fun e => -4 ≤ e && e ≤ 15, ['.', '0'], [], .up⟩

/-- A list of doubles in words. -/
def listText (xs : List Float) : String :=
  "[" ++ ", ".intercalate (xs.map Layout.listed.render) ++ "]"

namespace Event

/-- How much an event matters. -/
def level : Event → Level
  | .segmented .. | .converted .. | .fitDropped | .rowsRead .. | .assessed .. => .debug
  | .windowSkipped .. => .warn
  | _ => .info

/-- The wording of an event. -/
def text : Event → String
  | .segmented samples runs kept minLength =>
    s!"segmentation: {digitText samples} samples, {digitText runs} steady runs, " ++
      s!"{digitText kept} longer than {digitText minLength}"
  | .converted count => s!"applied {digitText count} unit conversions"
  | .loaded rows channels path =>
    s!"loaded {digitText rows} rows x {digitText channels} channels from {path}"
  | .windowsFound count samples =>
    s!"found {digitText count} cruise windows covering {digitText samples} samples"
  | .windowSkipped window fault => s!"skipping window {window.text}: {fault.message}"
  | .fitDropped => "training data changed; fitted parameters discarded"
  | .rowsRead added window total =>
    s!"read {digitText added} rows from {window.text}; {digitText total} accumulated"
  | .assessed rows cols condition =>
    s!"least squares: {digitText rows}x{digitText cols} design, " ++
      s!"condition number {Layout.exponential.render condition}"
  | .trained model rows parameters targets =>
    s!"{model} trained on {digitText rows} rows: {digitText parameters} parameters x " ++
      s!"{digitText targets} targets"
  | .residuals label summary =>
    s!"{label}: target {digitText summary.target}: {digitText summary.rows} rows, " ++
      s!"mean residual {fixedPlaces 6 summary.mean}, max |residual| {fixedPlaces 6 summary.maxAbs}"
  | .quality label report => s!"{label}: RMSE {listText report.rmse}, SE {listText report.se}"
  | .saved model path => s!"saved {model} model to {path}"

end Event

end FlightFit
