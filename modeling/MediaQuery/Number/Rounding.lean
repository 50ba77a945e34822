/-!
# Rounding of numbers

Numbers are binary64 values. Two roundings lead away from that range: to the
nearest binary32 value, and toward zero into the range of a counter. Both are
stated on the sign, mantissa and exponent of the value.
-/

namespace MediaQuery

namespace Rounding

open Float.Model (UnpackedFloat)

/-- A finite value of the given sign, rounded to the nearest binary64 value. -/
def ofParts (sign : UnpackedFloat.Sign) (mantissa : Nat) (exponent : Int) : Float :=
  .ofModel (.pack (UnpackedFloat.round .binary64 sign mantissa exponent))

/-- The nearest binary32 value, given in binary64; a value too large becomes infinite. -/
def toSingle (number : Float) : Float :=
  match number.toModel.unpack with
  | .finite sign mantissa exponent _ =>
      let single := UnpackedFloat.round .binary32 sign mantissa exponent
      match UnpackedFloat.unpack .binary32 (UnpackedFloat.pack .binary32 single) with
      | .finite sign mantissa exponent _ => ofParts sign mantissa exponent
      | other => .ofModel (.pack other)
  | _ => number

/-- The power of ten with the given exponent, as the nearest binary64 value. -/
def powerOfTen (exponent : Int) : Float :=
  Float.ofScientific 1 (decide (exponent < 0)) exponent.natAbs

/-- The least binary64 value that is not below a natural number. -/
def ofNatUp (number : Nat) : Float :=
  let unit := Nat.pow 2 (number.log2 - 52)
  ofParts .positive ((number + (unit - 1)) / unit) (number.log2 - 52 : Nat)

/--
The exponents of the powers of ten that scale upward. The first power lies exactly
halfway between two binary64 values, the second less than a thousandth of their
distance below halfway, and both count as the larger value. Every other power
counts as the value nearest to it.
-/
def upwardExponents : List Int :=
  [23, 210]

/-- The power of ten that scales a sum of digits: the nearest value but for the upward ones. -/
def scalingPower (exponent : Int) : Float :=
  if exponent ∈ upwardExponents then
    ofNatUp (Nat.pow 10 exponent.toNat)
  else
    powerOfTen exponent

/-- The whole part of a finite number, its fraction dropped; nothing for other numbers. -/
def truncate? (number : Float) : Option Int :=
  match number.toModel.unpack with
  | .zero _ => some 0
  | .finite sign mantissa exponent _ =>
      some (sign.apply ↑(mantissa * Nat.pow 2 exponent.toNat / Nat.pow 2 (-exponent).toNat))
  | _ => none

/-- The nearest value of the given width in bits, one of them the sign. -/
def saturate (width : Nat) (number : Int) : Int :=
  let limit : Int := Nat.pow 2 (width - 1)
  if number < -limit then -limit
  else if limit ≤ number then limit - 1
  else number

end Rounding

end MediaQuery
