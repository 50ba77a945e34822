import MediaQuery.Cursor
import MediaQuery.Quantity.Length
import MediaQuery.Quantity.Ratio
import MediaQuery.Quantity.Resolution

/-!
# Reading quantities

A reader takes one value from a cursor and leaves the cursor after it. A reader
that fails has passed the token that it refused. `Reader.whole` reads a text that
holds one value and nothing else.
-/

namespace MediaQuery

/-- Why a value cannot be read. -/
inductive ReadError where
  /-- The next token does not start a value of the kind asked for. -/
  | unexpectedToken
  /-- A number has a unit that the kind asked for does not know. -/
  | unknownUnit
  /-- More tokens follow the value. -/
  | trailingInput
  deriving DecidableEq, Repr

/-- What takes one value from a cursor. -/
abbrev Reader (Value : Type) :=
  Cursor → Except ReadError Value × Cursor

namespace Reader

/-- Reads the next token as a value; the end of the text is no value. -/
def ofToken {Value : Type} (read : Lexeme → Except ReadError Value) : Reader Value :=
  fun cursor =>
    match cursor.next with
    | (some lexeme, after) => (read lexeme, after)
    | (none, after) => (.error .unexpectedToken, after)

/-- Reads the one value that makes up a whole text. -/
def whole {Value : Type} (read : Reader Value) (text : String) : Except ReadError Value :=
  match read (Cursor.start text) with
  | (.ok value, after) => if after.exhausted then .ok value else .error .trailingInput
  | (.error error, _) => .error error

/-- Reads a name, in small letters. -/
def name : Reader String :=
  ofToken fun lexeme =>
    match lexeme.token with
    | .ident name => .ok (String.ofList (Text.lower name))
    | _ => .error .unexpectedToken

/-- Reads a number. -/
def number : Reader Float :=
  ofToken fun lexeme =>
    match lexeme.token with
    | .number numeral => .ok numeral.toFloat
    | _ => .error .unexpectedToken

/-- Reads a number without fraction and exponent; one of more than 32 bits is cut to the range. -/
def integer : Reader Int :=
  ofToken fun lexeme =>
    match lexeme.token with
    | .number numeral =>
        if numeral.isInteger then
          .ok (Rounding.saturate 32 numeral.toInt)
        else
          .error .unexpectedToken
    | _ => .error .unexpectedToken

/-- Reads a slash and a number after it. -/
def denominator : Reader Float :=
  fun cursor =>
    match cursor.next with
    | (some lexeme, after) =>
        if lexeme.token = .delimiter '/' then number after else (.error .unexpectedToken, after)
    | (none, after) => (.error .unexpectedToken, after)

/-- Reads a number, and a slash and a second number if they follow; the second is one otherwise. -/
def ratio : Reader Ratio :=
  fun cursor =>
    match number cursor with
    | (.ok numerator, afterNumerator) =>
        match denominator afterNumerator with
        | (.ok denominator, after) => (.ok ⟨numerator, denominator⟩, after)
        | (.error _, _) => (.ok ⟨numerator, 1⟩, afterNumerator)
    | (.error error, after) => (.error error, after)

/--
The number of a dimension. Its digits are the text less as many bytes as the unit
has; where an escape makes the unit longer than that, what is left is no numeral,
and the number is the sum of its digits in binary32 precision.
-/
def dimensionValue (text : List Char) (numeral : Numeral) (unit : List Char) : Float :=
  let digits :=
    if Text.byteLength unit ≤ Text.byteLength text then
      Text.takeBytes (Text.byteLength text - Text.byteLength unit) text
    else
      none
  match digits.bind Numeral.ofText? with
  | some plain => plain.toFloat
  | none => numeral.toSingle

/-- Reads a number with a unit; a number without one has the unit that goes without saying. -/
def quantity {Kind : Type} (implied : Kind) (unitOf : List Char → Option Kind) :
    Reader (Float × Kind) :=
  ofToken fun lexeme =>
    match lexeme.token with
    | .number numeral => .ok (numeral.toFloat, implied)
    | .dimension numeral unitName =>
        match unitOf unitName with
        | some unit => .ok (dimensionValue lexeme.text numeral unitName, unit)
        | none => .error .unknownUnit
    | _ => .error .unexpectedToken

/-- Reads a length; a number alone counts pixels. -/
def length : Reader Length :=
  fun cursor =>
    let (result, after) := quantity .pixels LengthUnit.ofName? cursor
    (result.map fun (value, unit) => ⟨value, unit⟩, after)

/-- Reads a resolution; a number alone counts dots per inch. -/
def resolution : Reader Resolution :=
  fun cursor =>
    let (result, after) := quantity .perInch ResolutionUnit.ofName? cursor
    (result.map fun (value, unit) => ⟨value, unit⟩, after)

end Reader

/-- The length that a text is, in pixels. -/
def pixelsOfText (text : String) : Except ReadError Float :=
  (Reader.length.whole text).map Length.toPixels

/-- The resolution that a text is, in dots per inch. -/
def dotsPerInchOfText (text : String) : Except ReadError Float :=
  (Reader.resolution.whole text).map Resolution.toDotsPerInch

/-- The quotient of the ratio that a text is. -/
def decimalOfText (text : String) : Except ReadError Float :=
  (Reader.ratio.whole text).map Ratio.toDecimal

/-- The integer that a text is. -/
def integerOfText (text : String) : Except ReadError Int :=
  Reader.integer.whole text

end MediaQuery
