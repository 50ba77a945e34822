import MediaQuery.Text.Basic

/-!
# Lengths

A length is a number and a unit. Lengths are compared in pixels, and a font is
taken to be sixteen pixels high.
-/

namespace MediaQuery

/-- The units of a length. -/
inductive LengthUnit where
  | pixels
  | ems
  | rootEms
  | centimeters
  | millimeters
  | inches
  | points
  | picas
  deriving DecidableEq, Repr

/-- The unit with a given name, in any letter case. -/
def LengthUnit.ofName? (name : List Char) : Option LengthUnit :=
  match String.ofList (Text.lower name) with
  | "px" => some .pixels
  | "em" => some .ems
  | "rem" => some .rootEms
  | "cm" => some .centimeters
  | "mm" => some .millimeters
  | "in" => some .inches
  | "pt" => some .points
  | "pc" => some .picas
  | _ => none

/-- A number of units of length. -/
structure Length where
  value : Float
  unit : LengthUnit

/-- A length in pixels. A point counts seventy-two pixels, as an inch counts that many points. -/
def Length.toPixels (length : Length) : Float :=
  match length.unit with
  | .pixels => length.value
  | .ems => length.value * 16
  | .rootEms => length.value * 16
  | .centimeters => length.value * 96 / 2.54
  | .millimeters => length.value * 96 / 2.54 / 10
  | .inches => length.value * 96
  | .points => length.value * 72
  | .picas => length.value * 72 / 12

end MediaQuery
