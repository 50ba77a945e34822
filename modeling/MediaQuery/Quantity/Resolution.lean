import MediaQuery.Text.Basic

/-!
# Resolutions

A resolution is a number and a unit. Resolutions are compared in dots per inch.
-/

namespace MediaQuery

/-- The units of a resolution: dots per inch, per centimeter and per pixel. -/
inductive ResolutionUnit where
  | perInch
  | perCentimeter
  | perPixel
  deriving DecidableEq, Repr

/-- The unit with a given name, in any letter case. -/
def ResolutionUnit.ofName? (name : List Char) : Option ResolutionUnit :=
  match String.ofList (Text.lower name) with
  | "dpi" => some .perInch
  | "dpcm" => some .perCentimeter
  | "dppx" => some .perPixel
  | _ => none

/-- A number of units of resolution. -/
structure Resolution where
  value : Float
  unit : ResolutionUnit

/-- A resolution in dots per inch. The dots of a centimeter are divided by its share of an inch. -/
def Resolution.toDotsPerInch (resolution : Resolution) : Float :=
  match resolution.unit with
  | .perInch => resolution.value
  | .perCentimeter => resolution.value / 2.54
  | .perPixel => resolution.value * 96

end MediaQuery
