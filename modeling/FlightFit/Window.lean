import FlightFit.Fault

/-!
Module: FlightFit.Window
Purpose: Half-open row ranges `[start, stop)`, the windows in which a flight is cut up.
Main exports: Window, Window.checked, Window.len, Window.isEmpty, Window.shift, Window.text
-/

namespace FlightFit

/-- The rows from `start` up to, and not including, `stop`. -/
structure Window where
  start : Nat
  stop : Nat
deriving DecidableEq, Repr

namespace Window

/-- A window whose end is not before its start. An empty window is allowed. -/
def checked (start stop : Nat) : Except Fault Window :=
  if stop < start then .error (.emptyRange start stop) else .ok ⟨start, stop⟩

/-- The number of rows. -/
def len (w : Window) : Nat := w.stop - w.start

/-- Whether there is no row in the window; so for an inverted one. -/
def isEmpty (w : Window) : Bool := w.stop ≤ w.start

/-- The number of rows in several windows together. -/
def totalLen : List Window → Nat
  | [] => 0
  | w :: rest => w.len + totalLen rest

/-- The same window on a series with `offset` rows put in front. -/
def shift (offset : Nat) (w : Window) : Window := ⟨w.start + offset, w.stop + offset⟩

/-- The window in words. -/
def text (w : Window) : String := s!"[{digitText w.start}, {digitText w.stop})"

end Window

end FlightFit
