import MediaQuery.Quantity.Reader

/-!
# Feature values

What a device reports for a feature: a truth value, a number, or a text that
spells a quantity. Each kind of feature reads all three in its own way.
-/

namespace MediaQuery

/-- A value that a device reports for a feature. -/
inductive FeatureValue where
  | bool (value : Bool)
  | number (value : Float)
  | text (value : String)
  deriving BEq

namespace FeatureValue

/-- Whether a value counts as present: no zero, no undefined number and no empty text does. -/
def isTruthy : FeatureValue → Bool
  | .bool value => value
  | .number value => decide (0 < value.abs)
  | .text value => !value.toList.isEmpty

/-- The text of a value that is one. -/
def text? : FeatureValue → Option String
  | .text value => some value
  | _ => none

/-- A value as a number: a number itself, or what a text spells. -/
def toNumber (ofText : String → Except ReadError Float) : FeatureValue → Except ReadError Float
  | .number value => .ok value
  | .text value => ofText value
  | .bool _ => .error .unexpectedToken

/-- A value as a length in pixels. -/
def toPixels : FeatureValue → Except ReadError Float :=
  toNumber pixelsOfText

/-- A value as a resolution in dots per inch. -/
def toDotsPerInch : FeatureValue → Except ReadError Float :=
  toNumber dotsPerInchOfText

/-- A value as the quotient of a ratio. -/
def toDecimal : FeatureValue → Except ReadError Float :=
  toNumber decimalOfText

/--
A value as a count. A truth value counts one or nothing, and a finite number loses
its fraction and what exceeds 64 bits.
-/
def toInteger : FeatureValue → Except ReadError Int
  | .bool value => .ok (if value then 1 else 0)
  | .number value =>
      match Rounding.truncate? value with
      | some whole => .ok (Rounding.saturate 64 whole)
      | none => .error .unexpectedToken
  | .text value => integerOfText value

end FeatureValue

end MediaQuery
