import MediaQuery.Proofs.Number.Grammar
import MediaQuery.Proofs.Number.Power

/-!
# Numerals without a value

The nearest value of a numeral is always defined, and so is the sum of its digits. The value that
scales this sum is undefined if the exponent is out of proportion: no digit but zeros meets a power
of ten that is infinite, or a sum of digits that is infinite meets a power of ten that is zero.
-/

namespace MediaQuery

namespace Rounding

open Float.Model (UnpackedFloat Format)

theorem sign?_ofParts (sign : UnpackedFloat.Sign) (mantissa : Nat) (exponent : Int) :
    sign? (ofParts sign mantissa exponent).toModel.unpack = some sign :=
  (sign?_pack _).trans (sign?_round _ _ _ _)

/-- A number keeps its sign in binary32 precision, and stays undefined if it is. -/
theorem sign?_toSingle (number : Float) :
    sign? (toSingle number).toModel.unpack = sign? number.toModel.unpack := by
  unfold toSingle
  cases value : number.toModel.unpack with
  | finite sign mantissa exponent positive =>
      have single : sign? (UnpackedFloat.unpack .binary32 (UnpackedFloat.pack .binary32
          (UnpackedFloat.round .binary32 sign mantissa exponent))) = some sign := by
        have signed := sign?_round .binary32 sign mantissa exponent
        rw [sign?_unpack_pack]
        · exact signed
        · intro undefined
          rw [undefined] at signed
          cases signed
      dsimp only
      split
      · rename_i rounded
        rw [rounded] at single
        exact (sign?_ofParts _ _ _).trans single
      · exact (sign?_pack _).trans single
  | _ => exact congrArg sign? value

theorem isNaN_toSingle (number : Float) : (toSingle number).isNaN = number.isNaN := by
  rw [isNaN_eq, isNaN_eq, sign?_toSingle]

/-- The power of ten that scales a sum of digits is positive. -/
theorem isPositive_scalingPower (exponent : Int) : IsPositive (scalingPower exponent) := by
  unfold scalingPower
  split
  · exact sign?_ofParts _ _ _
  · exact isPositive_ofScientific _ _ _

end Rounding

namespace Numeral

open Rounding

/-- The nearest value of a numeral is defined. -/
theorem isNaN_toFloat (numeral : Numeral) : numeral.toFloat.isNaN = false := by
  have size := (isPositive_ofScientific (ofDigits (numeral.whole ++ numeral.fraction))
    (decide (numeral.exponent.getD 0 - numeral.fraction.length < 0))
    (numeral.exponent.getD 0 - numeral.fraction.length).natAbs).isNaN
  unfold toFloat
  dsimp only
  split
  · rw [isNaN_neg, size]
  · exact size

theorem isPositive_ofNat (number : Nat) : IsPositive (Float.ofNat number) :=
  isPositive_ofScientific number false 0

theorem isPositive_wholeSum (digits : List Nat) : IsPositive (wholeSum digits) := by
  have run : ∀ sum, IsPositive sum →
      IsPositive (digits.foldl (fun sum digit => sum * 10 + Float.ofNat digit) sum) := by
    induction digits with
    | nil => exact fun sum positive => positive
    | cons digit digits ih =>
        intro sum positive
        have ten : IsOrdinary 10 := ⟨by decide, by decide⟩
        have positiveTen : IsPositive 10 := rfl
        have product : (sum * 10).isNaN = false := by
          rw [ten.isNaN_mul]
          exact positive.isNaN
        apply ih
        exact (positive.mul positiveTen product).add (isPositive_ofNat digit)
  exact run 0 rfl

theorem isFinite_ofNat {digit : Nat} (decimal : digit < 10) :
    (Float.ofNat digit).isFinite = true := by
  have digits : ∀ digit < 10, (Float.ofNat digit).isFinite = true := by decide
  exact digits digit decimal

/-- Fraction digits have a positive sum: their places stay finite, and so does each product. -/
theorem isPositive_fractionSum {digits : List Nat} (decimal : ∀ digit ∈ digits, digit < 10) :
    IsPositive (fractionSum digits) := by
  have run : ∀ sum place, IsPositive sum → IsPositive place → place.isFinite = true →
      IsPositive (digits.foldl
        (fun sums digit => (sums.1 + Float.ofNat digit * sums.2, sums.2 * 0.1))
        (sum, place)).1 := by
    induction digits with
    | nil => exact fun sum place positive _ _ => positive
    | cons digit digits ih =>
        intro sum place positive positivePlace finite
        have product : (Float.ofNat digit * place).isNaN = false :=
          isNaN_mul_of_isFinite (isFinite_ofNat (decimal digit List.mem_cons_self)) finite
        have next : (place * 0.1).isNaN = false := isNaN_mul_of_isFinite finite (by decide)
        have positiveTenth : IsPositive 0.1 := rfl
        apply ih (fun digit isDigit => decimal digit (List.mem_cons_of_mem _ isDigit))
        · exact positive.add ((isPositive_ofNat digit).mul positivePlace product)
        · exact positivePlace.mul positiveTenth next
        · exact isFinite_mul_tenth finite
  exact run 0 0.1 rfl rfl (by decide)

theorem fraction_lt_of_scan (text : List Char) : ∀ digit ∈ (scan text).1.fraction, digit < 10 := by
  intro digit isDigit
  rcases List.mem_map.mp isDigit with ⟨character, isFraction, rfl⟩
  exact digitValue_lt (isDigit_of_mem_fractionDigits _ character isFraction)

/-- The sum of the digits of a numeral, with its sign, before the exponent scales it. -/
def digitSum (numeral : Numeral) : Float :=
  let sum := wholeSum numeral.whole + fractionSum numeral.fraction
  if numeral.negative then -sum else sum

theorem isNaN_digitSum {numeral : Numeral} (decimal : ∀ digit ∈ numeral.fraction, digit < 10) :
    numeral.digitSum.isNaN = false := by
  have sum := ((isPositive_wholeSum numeral.whole).add (isPositive_fractionSum decimal)).isNaN
  unfold digitSum
  dsimp only
  split
  · rw [isNaN_neg, sum]
  · exact sum

/--
Whether the exponent of a numeral cannot scale the sum of its digits: zero meets an infinite
power of ten, or an infinite sum meets a power of ten that is zero.
-/
def IsUnscalable (numeral : Numeral) : Prop :=
  ∃ exponent ∈ numeral.exponent,
    (numeral.digitSum == 0) = true ∧ 308 < exponent ∨
      numeral.digitSum.isInf = true ∧ exponent < -323

/-- The scaled sum of digits is undefined only where the exponent cannot scale it. -/
theorem isNaN_toSingle_iff {numeral : Numeral}
    (decimal : ∀ digit ∈ numeral.fraction, digit < 10) :
    numeral.toSingle.isNaN = true ↔ numeral.IsUnscalable := by
  have sum := isNaN_digitSum decimal
  unfold IsUnscalable
  cases scale : numeral.exponent with
  | none =>
      have unscaled : numeral.toSingle = Rounding.toSingle numeral.digitSum := by
        rw [toSingle, scale]
        rfl
      rw [unscaled, isNaN_toSingle]
      simp only [sum, Bool.false_eq_true, Option.mem_def, reduceCtorEq, false_and, exists_false]
  | some exponent =>
      have scaled : numeral.toSingle =
          Rounding.toSingle (numeral.digitSum * scalingPower exponent) := by
        rw [toSingle, scale]
        rfl
      have power := (isPositive_scalingPower exponent).isNaN
      rw [scaled, isNaN_toSingle, isNaN_mul_iff, isInf_scalingPower_iff,
        beq_zero_scalingPower_iff]
      simp only [sum, power, Bool.false_eq_true, false_or, Option.mem_def, Option.some.injEq,
        exists_eq_left']
      exact or_comm

end Numeral

end MediaQuery
