import MediaQuery.Number.Rounding

/-!
# Numerals

A numeral is a number as it is written: a sign, whole digits, fraction digits
and an exponent. Its value is the nearest binary64 number. A second, coarser
value adds the digits up one by one and keeps binary32 precision.
-/

namespace MediaQuery

/-- A number as it is written, its digits from the highest place down. -/
structure Numeral where
  negative : Bool := false
  whole : List Nat := []
  fraction : List Nat := []
  exponent : Option Int := none
  deriving DecidableEq, Repr

namespace Numeral

/-- The value of a decimal digit. -/
def digitValue (digit : Char) : Nat :=
  digit.toNat - '0'.toNat

/-- The number that a run of decimal digits writes. -/
def ofDigits (digits : List Nat) : Nat :=
  digits.foldl (fun number digit => number * 10 + digit) 0

/-- The number of characters that a sign takes at the front of a text. -/
def signLength : List Char → Nat
  | '+' :: _ => 1
  | '-' :: _ => 1
  | _ => 0

/-- Whether a text starts with the sign of a negative number. -/
def startsNegative : List Char → Bool
  | '-' :: _ => true
  | _ => false

/-- Whether a text starts with a digit, or with a point and a digit. -/
def startsUnsigned : List Char → Bool
  | '.' :: digit :: _ => digit.isDigit
  | digit :: _ => digit.isDigit
  | [] => false

/-- Whether a text starts with a numeral. -/
def starts (text : List Char) : Bool :=
  startsUnsigned (text.drop (signLength text))

/-- The fraction digits at the front of a text: those after a point, if any follow it. -/
def fractionDigits : List Char → List Char
  | '.' :: rest => rest.takeWhile Char.isDigit
  | _ => []

/-- The exponent at the front of a text, and the number of characters that it takes. -/
def scanExponent : List Char → Option Int × Nat
  | [] => (none, 0)
  | marker :: rest =>
      let sign := signLength rest
      let digits := (rest.drop sign).takeWhile Char.isDigit
      if (marker == 'e' || marker == 'E') && !digits.isEmpty then
        let size : Int := ofDigits (digits.map digitValue)
        (some (if startsNegative rest then -size else size), 1 + sign + digits.length)
      else
        (none, 0)

/-- The longest numeral at the front of a text, and the number of characters that it takes. -/
def scan (text : List Char) : Numeral × Nat :=
  let sign := signLength text
  let whole := (text.drop sign).takeWhile Char.isDigit
  let afterWhole := text.drop (sign + whole.length)
  let fraction := fractionDigits afterWhole
  let fractionLength := if fraction.isEmpty then 0 else 1 + fraction.length
  let (exponent, exponentLength) := scanExponent (afterWhole.drop fractionLength)
  ({ negative := startsNegative text
     whole := whole.map digitValue
     fraction := fraction.map digitValue
     exponent },
   sign + whole.length + fractionLength + exponentLength)

/-- The numeral that a whole text is, if it is one. -/
def ofText? (text : List Char) : Option Numeral :=
  let (numeral, length) := scan text
  if starts text && length == text.length then some numeral else none

/-- Whether a numeral is written without a fraction and without an exponent. -/
def isInteger (numeral : Numeral) : Bool :=
  numeral.fraction.isEmpty && numeral.exponent.isNone

/-- The whole digits as a signed integer. -/
def toInt (numeral : Numeral) : Int :=
  if numeral.negative then -ofDigits numeral.whole else ofDigits numeral.whole

/-- The nearest binary64 value. -/
def toFloat (numeral : Numeral) : Float :=
  let exponent := numeral.exponent.getD 0 - numeral.fraction.length
  let size := Float.ofScientific (ofDigits (numeral.whole ++ numeral.fraction))
    (decide (exponent < 0)) exponent.natAbs
  if numeral.negative then -size else size

/-- The sum of the whole digits, one place at a time. -/
def wholeSum (digits : List Nat) : Float :=
  digits.foldl (fun sum digit => sum * 10 + Float.ofNat digit) 0

/-- The sum of the fraction digits, each at a tenth of the place before it. -/
def fractionSum (digits : List Nat) : Float :=
  (digits.foldl
    (fun (sum, place) digit => (sum + Float.ofNat digit * place, place * 0.1))
    ((0 : Float), (0.1 : Float))).1

/-- The value that adding the digits up and scaling the sum yields, in binary32 precision. -/
def toSingle (numeral : Numeral) : Float :=
  let sum := wholeSum numeral.whole + fractionSum numeral.fraction
  let signed := if numeral.negative then -sum else sum
  Rounding.toSingle <|
    match numeral.exponent with
    | none => signed
    | some exponent => signed * Rounding.scalingPower exponent

end Numeral

end MediaQuery
