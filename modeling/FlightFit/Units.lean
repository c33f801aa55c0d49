import FlightFit.Keyed
import FlightFit.Table

/-!
Module: FlightFit.Units
Purpose: Linear unit conversions of channels. The conversions of a converter are done in the order of
  the channel names, and stop at the first channel that the table lacks; those before it stay done.
Main exports: Conversion, UnitConverter, UnitConverter.apply
-/

namespace FlightFit

/-- A linear unit conversion. -/
structure Conversion where
  scale : Float
  offset : Float
deriving Repr

/-- The converted value. -/
def Conversion.convert (c : Conversion) (value : Float) : Float := value * c.scale + c.offset

/-- Conversions of channels, in increasing order of their names. -/
structure UnitConverter where
  conversions : List (String × Conversion)
deriving Repr

namespace UnitConverter

/-- The converter of some conversions; the last one for a channel counts. -/
def ofList (conversions : List (String × Conversion)) : UnitConverter := ⟨Keyed.ofList conversions⟩

/-- Converts channels one after the other. -/
def applyAll : List (String × Conversion) → Table → Table × Except Fault Unit
  | [], table => (table, .ok ())
  | (name, conversion) :: rest, table =>
    match table.update name fun samples => samples.map conversion.convert with
    | .ok table => applyAll rest table
    | .error fault => (table, .error fault)

/-- Converts every listed channel. -/
def apply (c : UnitConverter) (table : Table) : Table × Except Fault Unit := applyAll c.conversions table

end UnitConverter

end FlightFit
