import MediaQuery.Number.Numeral

/-!
# Numbers of a JSON text

A JSON number is read in one pass. Its leading digits, as many as 64 bits hold,
make a significand, which is rounded once and then scaled once by a power of ten,
or twice if it is very small. Every step rounds to nearest, so a number of few
digits is read exactly, and one of many may miss the nearest value. A number that
grows beyond the finite ones is refused.
-/

namespace MediaQuery

/-- The leading digits of a numeral and the power of ten that they count. -/
structure ScaledDigits where
  significand : Nat
  exponent : Int
  deriving DecidableEq, Repr

namespace ScaledDigits

/-- Whether a significand can take one more digit and still be held in 64 bits. -/
def hasRoom (significand digit : Nat) : Bool :=
  decide (significand * 10 + digit < UInt64.size)

/--
A significand with the whole digits that fit, and the number of those left, from
the first that does not fit.
-/
def takeWhole (significand : Nat) : List Nat → Nat × Nat
  | [] => (significand, 0)
  | digit :: rest =>
      if hasRoom significand digit then
        takeWhole (significand * 10 + digit) rest
      else
        (significand, rest.length + 1)

/-- A significand with the fraction digits that fit, and the number of those taken. -/
def takeFraction (significand : Nat) : List Nat → Nat × Nat
  | [] => (significand, 0)
  | digit :: rest =>
      if hasRoom significand digit then
        let (longer, taken) := takeFraction (significand * 10 + digit) rest
        (longer, taken + 1)
      else
        (significand, 0)

/--
The leading digits of a numeral. Each whole digit left out counts a power of ten,
and fraction digits left out count nothing.
-/
def ofNumeral (numeral : Numeral) : ScaledDigits :=
  let (whole, left) := takeWhole 0 numeral.whole
  let (significand, taken) := takeFraction whole numeral.fraction
  { significand, exponent := numeral.exponent.getD 0 + left - taken }

/--
A number of at most 64 bits over a power of ten. One division reaches 308 places
and two reach 616, past which nothing is left of it.
-/
def shrink (number : Float) (places : Nat) : Float :=
  if places ≤ 308 then
    number / Rounding.powerOfTen places
  else if places ≤ 616 then
    number / Rounding.powerOfTen 308 / Rounding.powerOfTen (places - 308 : Nat)
  else
    0

/-- A number times a power of ten, if the product is finite. -/
def grow? (number : Float) (places : Nat) : Option Float :=
  if places ≤ 308 then
    let product := number * Rounding.powerOfTen places
    if product.isInf then none else some product
  else if number == 0 then
    some 0
  else
    none

/-- The value of scaled digits, if it is finite. -/
def toFloat? (digits : ScaledDigits) : Option Float :=
  let number := Float.ofNat digits.significand
  if digits.exponent < 0 then
    some (shrink number digits.exponent.natAbs)
  else
    grow? number digits.exponent.natAbs

end ScaledDigits

/-- The value of a numeral in a JSON text, if it is finite. -/
def Numeral.jsonValue? (numeral : Numeral) : Option Float :=
  (ScaledDigits.ofNumeral numeral).toFloat?.map fun size =>
    if numeral.negative then -size else size

end MediaQuery
