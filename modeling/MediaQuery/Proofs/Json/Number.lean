import MediaQuery.Json.Number
import MediaQuery.Proofs.Number.Value

/-!
# The value of a number in a JSON text

A number of few digits is read exactly: its digits make a number without loss, as do the powers of
ten that are near, and so a single rounding is left, which makes the number nearest to what is
written.
-/

namespace MediaQuery

namespace ScaledDigits

/-- Digits behind a significand make it longer. -/
def extend (significand : Nat) (digits : List Nat) : Nat :=
  digits.foldl (fun number digit => number * 10 + digit) significand

theorem le_extend (significand : Nat) (digits : List Nat) :
    significand ≤ extend significand digits := by
  induction digits generalizing significand with
  | nil => exact le_rfl
  | cons digit rest ih => exact le_trans (by omega) (ih (significand * 10 + digit))

theorem hasRoom_of_extend {significand digit : Nat} {rest : List Nat}
    (room : extend significand (digit :: rest) < UInt64.size) :
    hasRoom significand digit = true :=
  decide_eq_true (lt_of_le_of_lt (le_extend _ rest) room)

/--
What is taken of the digits behind a significand: those at the front, as many as 64 bits hold.
-/
structure Takes (significand : Nat) (digits taken rest : List Nat) : Prop where
  parts : digits = taken ++ rest
  fits : extend significand taken < UInt64.size
  stops : ∀ digit ∈ rest.head?, hasRoom (extend significand taken) digit = false

theorem exists_takes (digits : List Nat) {significand : Nat} (fits : significand < UInt64.size) :
    ∃ taken rest, Takes significand digits taken rest ∧
      takeWhole significand digits = (extend significand taken, rest.length) ∧
        takeFraction significand digits = (extend significand taken, taken.length) := by
  induction digits generalizing significand with
  | nil => exact ⟨[], [], ⟨rfl, fits, by simp⟩, rfl, rfl⟩
  | cons digit digits ih =>
      by_cases room : hasRoom significand digit = true
      · rcases ih (of_decide_eq_true room) with ⟨taken, rest, takes, whole, fraction⟩
        refine ⟨digit :: taken, rest, ⟨?_, takes.fits, takes.stops⟩, ?_, ?_⟩
        · rw [takes.parts, List.cons_append]
        · rw [takeWhole, if_pos room, whole]
          rfl
        · rw [takeFraction, if_pos room, fraction]
          rfl
      · have stops := Bool.eq_false_of_not_eq_true room
        refine ⟨[], digit :: digits, ⟨rfl, fits, ?_⟩, ?_, ?_⟩
        · rintro _ ⟨⟩
          exact stops
        · rw [takeWhole, if_neg room]
          rfl
        · rw [takeFraction, if_neg room]
          rfl

theorem extend_append (significand : Nat) (taken rest : List Nat) :
    extend significand (taken ++ rest) = extend (extend significand taken) rest :=
  List.foldl_append

/-- Digits that 64 bits hold are all taken. -/
theorem Takes.rest_eq_nil {significand : Nat} {digits taken rest : List Nat}
    (takes : Takes significand digits taken rest)
    (fits : extend significand digits < UInt64.size) : rest = [] := by
  rw [takes.parts, extend_append] at fits
  cases rest with
  | nil => rfl
  | cons digit rest =>
      have stops := takes.stops digit rfl
      rw [hasRoom_of_extend fits] at stops
      cases stops

/-- The whole digits are taken first, then those of the fraction. -/
theorem exists_ofNumeral_eq (numeral : Numeral) :
    ∃ whole left places others, Takes 0 numeral.whole whole left ∧
      Takes (extend 0 whole) numeral.fraction places others ∧
        ofNumeral numeral = ⟨extend (extend 0 whole) places,
          numeral.exponent.getD 0 + left.length - places.length⟩ := by
  have nothing : 0 < UInt64.size := by decide
  rcases exists_takes numeral.whole nothing with ⟨whole, left, takesWhole, takenWhole, _⟩
  rcases exists_takes numeral.fraction takesWhole.fits with
    ⟨places, others, takesPlaces, _, takenPlaces⟩
  refine ⟨whole, left, places, others, takesWhole, takesPlaces, ?_⟩
  simp only [ofNumeral, takenWhole, takenPlaces]

/-- Few digits are taken as they are. -/
theorem ofNumeral_eq {numeral : Numeral}
    (fits : Numeral.ofDigits (numeral.whole ++ numeral.fraction) < UInt64.size) :
    ofNumeral numeral = ⟨Numeral.ofDigits (numeral.whole ++ numeral.fraction),
      numeral.exponent.getD 0 - numeral.fraction.length⟩ := by
  rcases exists_ofNumeral_eq numeral with
    ⟨whole, left, places, others, takesWhole, takesPlaces, taken⟩
  have all : Numeral.ofDigits (numeral.whole ++ numeral.fraction) =
      extend (extend 0 numeral.whole) numeral.fraction := extend_append 0 _ _
  rw [all] at fits
  have noneLeft := takesWhole.rest_eq_nil (lt_of_le_of_lt (le_extend _ _) fits)
  have sameWhole := takesWhole.parts
  rw [noneLeft, List.append_nil] at sameWhole
  rw [← sameWhole] at takesPlaces taken
  have sameFraction := takesPlaces.parts
  rw [takesPlaces.rest_eq_nil fits, List.append_nil] at sameFraction
  rw [taken, all, noneLeft, ← sameFraction, List.length_nil, Nat.cast_zero, add_zero]

section Scale

variable {significand : Nat} {exponent : Int}

/-- To scale by a power of ten below one is to divide by its inverse. -/
theorem mul_zpow_of_downward (downward : exponent < 0) :
    (significand : ℚ) * 10 ^ exponent = significand / 10 ^ exponent.natAbs := by
  have places : exponent = -exponent.natAbs := by omega
  have inverse : (10 : ℚ) ^ exponent = (10 ^ exponent.natAbs)⁻¹ := by
    rw [← zpow_natCast, ← zpow_neg, ← places]
  rw [inverse, div_eq_mul_inv]

theorem mul_zpow_of_upward (upward : ¬ exponent < 0) :
    (significand : ℚ) * 10 ^ exponent = significand * 10 ^ exponent.natAbs := by
  rw [← zpow_natCast, Int.natAbs_of_nonneg (not_lt.mp upward)]

end Scale

variable {digits : ScaledDigits}

theorem toFloat?_of_downward (short : digits.significand < 2 * Rounding.leadingBit)
    (downward : digits.exponent < 0) (close : digits.exponent.natAbs ≤ 22) :
    ∃ value, digits.toFloat? = some value ∧ Rounding.IsRounded .positive
      (digits.significand * 10 ^ digits.exponent) value.toModel.unpack := by
  have few : digits.exponent.natAbs ≤ 308 := by omega
  have quotient := (Rounding.hasSize_ofNat short).div (Rounding.hasSize_powerOfTen close)
    (pow_ne_zero _ (by norm_num))
  rw [← mul_zpow_of_downward downward] at quotient
  refine ⟨_, ?_, quotient⟩
  rw [toFloat?, if_pos downward, shrink, if_pos few]

theorem toFloat?_of_upward (short : digits.significand < 2 * Rounding.leadingBit)
    (upward : ¬ digits.exponent < 0) (close : digits.exponent.natAbs ≤ 22) :
    ∃ value, digits.toFloat? = some value ∧ Rounding.IsRounded .positive
      (digits.significand * 10 ^ digits.exponent) value.toModel.unpack := by
  have few : digits.exponent.natAbs ≤ 308 := by omega
  have product := (Rounding.hasSize_ofNat short).mul (Rounding.hasSize_powerOfTen close)
  rw [← mul_zpow_of_upward upward] at product
  refine ⟨_, ?_, product⟩
  have finite : (Float.ofNat digits.significand *
      Rounding.powerOfTen digits.exponent.natAbs).isInf = false := by
    apply product.isInf
    have most : (digits.significand : ℚ) ≤ 2 ^ 53 := by exact_mod_cast short.le
    calc (digits.significand : ℚ) * 10 ^ digits.exponent
        = digits.significand * 10 ^ digits.exponent.natAbs := mul_zpow_of_upward upward
      _ ≤ 2 ^ 53 * 10 ^ 22 :=
          mul_le_mul most (pow_le_pow_right₀ (by norm_num) close) (by positivity) (by positivity)
      _ ≤ 2 ^ 53 * 2 ^ 80 := by gcongr; norm_num
      _ = 2 ^ 133 := (pow_add 2 53 80).symm
      _ ≤ Rounding.greatest := Rounding.pow_le_greatest (by decide)
  simp only [toFloat?, if_neg upward, grow?, if_pos few, finite, Bool.false_eq_true, if_false]

/-- Few digits are scaled to the number nearest to them. -/
theorem exists_toFloat? (short : digits.significand < 2 * Rounding.leadingBit)
    (close : digits.exponent.natAbs ≤ 22) :
    ∃ value, digits.toFloat? = some value ∧ Rounding.IsRounded .positive
      (digits.significand * 10 ^ digits.exponent) value.toModel.unpack := by
  by_cases downward : digits.exponent < 0
  · exact toFloat?_of_downward short downward close
  · exact toFloat?_of_upward short downward close

end ScaledDigits

namespace Numeral

/--
Whether a numeral has few digits: all of them make a number of 53 bits or fewer, and the last one
is at most 22 places from the point.
-/
structure IsShort (numeral : Numeral) : Prop where
  few : Nat.ofDigits 10 (numeral.whole ++ numeral.fraction).reverse < Nat.pow 2 53
  close : (numeral.exponent.getD 0 - numeral.fraction.length).natAbs ≤ 22

variable {numeral : Numeral}

/-- A number of few digits is read as the number nearest to it. -/
theorem IsShort.exists_isValue (short : numeral.IsShort) :
    ∃ value, numeral.jsonValue? = some value ∧ numeral.IsValue value := by
  have few := short.few
  rw [← ofDigits_eq] at few
  have scaled := ScaledDigits.ofNumeral_eq (lt_trans few (by decide))
  have held : ∃ size, (ScaledDigits.ofNumeral numeral).toFloat? = some size ∧
      Rounding.IsRounded .positive numeral.size size.toModel.unpack := by
    rw [scaled, size_eq]
    exact ScaledDigits.exists_toFloat? few short.close
  rcases held with ⟨size, found, rounded⟩
  unfold jsonValue? IsValue sign
  rw [found]
  cases numeral.negative with
  | false => exact ⟨size, rfl, rounded⟩
  | true => exact ⟨-size, rfl, rounded.neg⟩

theorem IsShort.isValue {value : Float} (short : numeral.IsShort)
    (found : numeral.jsonValue? = some value) : numeral.IsValue value := by
  rcases short.exists_isValue with ⟨_, held, isValue⟩
  rw [found] at held
  cases held
  exact isValue

end Numeral

end MediaQuery
