import MediaQuery.Proofs.Number.Undefined
import MediaQuery.Proofs.Quantity.Grammar

/-!
# Quantities without a value

A text can be read as a quantity whose value is undefined. A ratio is undefined if both of its
numbers are zero or both infinite. A length or a resolution is undefined if an escape in its unit
hides where the number ends, so that its digits are added up, and its exponent cannot scale their
sum. Nothing else that can be read is undefined, and no change of units makes it so.
-/

namespace MediaQuery

open Lexeme (solid ofText)
open Rounding (IsOrdinary)

section Units

/-- A change to pixels multiplies and divides by ordinary numbers only. -/
theorem Length.isNaN_toPixels (length : Length) :
    length.toPixels.isNaN = length.value.isNaN := by
  have sixteen : IsOrdinary 16 := ⟨by decide, by decide⟩
  have ninetySix : IsOrdinary 96 := ⟨by decide, by decide⟩
  have seventyTwo : IsOrdinary 72 := ⟨by decide, by decide⟩
  have twelve : IsOrdinary 12 := ⟨by decide, by decide⟩
  have ten : IsOrdinary 10 := ⟨by decide, by decide⟩
  have inch : IsOrdinary 2.54 := ⟨by decide, by decide⟩
  rcases length with ⟨value, unit⟩
  cases unit with
  | pixels => rfl
  | ems => exact sixteen.isNaN_mul value
  | rootEms => exact sixteen.isNaN_mul value
  | centimeters => exact (inch.isNaN_div _).trans (ninetySix.isNaN_mul value)
  | millimeters =>
      exact (ten.isNaN_div _).trans ((inch.isNaN_div _).trans (ninetySix.isNaN_mul value))
  | inches => exact ninetySix.isNaN_mul value
  | points => exact seventyTwo.isNaN_mul value
  | picas => exact (twelve.isNaN_div _).trans (seventyTwo.isNaN_mul value)

/-- A change to dots per inch multiplies and divides by ordinary numbers only. -/
theorem Resolution.isNaN_toDotsPerInch (resolution : Resolution) :
    resolution.toDotsPerInch.isNaN = resolution.value.isNaN := by
  have ninetySix : IsOrdinary 96 := ⟨by decide, by decide⟩
  have inch : IsOrdinary 2.54 := ⟨by decide, by decide⟩
  rcases resolution with ⟨value, unit⟩
  cases unit with
  | perInch => rfl
  | perCentimeter => exact inch.isNaN_div value
  | perPixel => exact ninetySix.isNaN_mul value

end Units

section Dimensions

variable {text suffix spelled : List Char} {numeral : Numeral}

/-- The digits of a dimension are decimal ones. -/
theorem IsDimension.fraction_lt (isDimension : IsDimension text numeral suffix spelled) :
    ∀ digit ∈ numeral.fraction, digit < 10 := by
  rcases Lexeme.exists_of_solid_eq_cons isDimension with
    ⟨lead, rest, whole, blank, ⟨nonempty, front⟩, behind⟩
  have token := (Lexeme.mk.inj front).1.symm
  rcases Token.scan_eq_scanNumeric nonempty (Or.inr ⟨numeral, suffix, token⟩) with ⟨_, scanned⟩
  rw [scanned, Token.scanNumeric_eq] at token
  split at token
  · cases token
  split at token
  · rw [← (Token.dimension.inj token).1]
    exact Numeral.fraction_lt_of_scan _
  · cases token

/--
Whether a text is a dimension without a value: an escape in the unit hides where the number ends,
and the exponent cannot scale the sum of its digits.
-/
def IsUndefinedDimension (text : List Char) : Prop :=
  ∃ numeral suffix spelled, IsDimension text numeral suffix spelled ∧
    Reader.plainNumeral? spelled suffix = none ∧ numeral.IsUnscalable

theorem isNaN_dimensionValue_iff (isDimension : IsDimension text numeral suffix spelled) :
    (Reader.dimensionValue spelled numeral suffix).isNaN = true ↔ IsUndefinedDimension text := by
  have only : IsUndefinedDimension text ↔
      Reader.plainNumeral? spelled suffix = none ∧ numeral.IsUnscalable := by
    constructor
    · rintro ⟨other, otherSuffix, otherSpelled, otherDimension, hidden, unscalable⟩
      rw [IsDimension, isDimension] at otherDimension
      cases otherDimension
      exact ⟨hidden, unscalable⟩
    · rintro ⟨hidden, unscalable⟩
      exact ⟨numeral, suffix, spelled, isDimension, hidden, unscalable⟩
  rw [only, Reader.dimensionValue_eq]
  cases Reader.plainNumeral? spelled suffix with
  | some plain =>
      simp only [plain.isNaN_toFloat, Bool.false_eq_true, reduceCtorEq, false_and]
  | none =>
      simp only [Numeral.isNaN_toSingle_iff isDimension.fraction_lt, true_and]

theorem not_isUndefinedDimension_of_isQuantity (isQuantity : IsQuantity text numeral []) :
    ¬ IsUndefinedDimension text := by
  rintro ⟨other, suffix, spelled, isDimension, _⟩
  rcases isQuantity_nil_iff.mp isQuantity with ⟨number, isNumber⟩
  rw [IsDimension, isNumber] at isDimension
  cases isDimension

end Dimensions

section Readers

variable {text : String} {value : Float}

theorem Reader.isNaN_whole_quantity_iff {Kind : Type} {implied unit : Kind}
    {unitOf : List Char → Option Kind}
    (isRead : whole (quantity implied unitOf) text = .ok (value, unit)) :
    value.isNaN = true ↔ IsUndefinedDimension text.toList := by
  rcases whole_quantity_eq_ok_iff_solid.mp isRead with
    ⟨numeral, isQuantity, rfl, _⟩ | ⟨numeral, suffix, spelled, isDimension, _, rfl⟩
  · rw [numeral.isNaN_toFloat]
    exact iff_of_false Bool.false_ne_true (not_isUndefinedDimension_of_isQuantity isQuantity)
  · exact isNaN_dimensionValue_iff isDimension

/-- What is read as a quantity without an escape has a value. -/
theorem Reader.not_isUndefinedDimension_of_plain {Kind : Type} {implied unit : Kind}
    {unitOf : List Char → Option Kind} {name : Kind → List Char}
    (named : ∀ suffix unit, unitOf suffix = some unit ↔ Text.lower suffix = name unit)
    (isUnitName : ∀ unit, IsUnitName (name unit)) (plain : '\\' ∉ text.toList)
    (isRead : whole (quantity implied unitOf) text = .ok (value, unit)) :
    ¬ IsUndefinedDimension text.toList := by
  rcases (whole_quantity_eq_ok_iff named isUnitName plain).mp isRead with
    ⟨numeral, _, _, _, isValue⟩
  rw [← isNaN_whole_quantity_iff isRead, Numeral.isValue_iff.mp isValue, numeral.isNaN_toFloat]
  exact Bool.false_ne_true

theorem exists_of_pixelsOfText (isRead : pixelsOfText text = .ok value) :
    ∃ length : Length, Reader.whole (Reader.quantity .pixels LengthUnit.ofName?) text =
      .ok (length.value, length.unit) ∧ value = length.toPixels := by
  rcases map_eq_ok_iff.mp isRead with ⟨length, isLength, rfl⟩
  exact ⟨length, Reader.whole_length_eq_ok_iff.mp isLength, rfl⟩

theorem exists_of_dotsPerInchOfText (isRead : dotsPerInchOfText text = .ok value) :
    ∃ resolution : Resolution, Reader.whole (Reader.quantity .perInch ResolutionUnit.ofName?) text =
      .ok (resolution.value, resolution.unit) ∧ value = resolution.toDotsPerInch := by
  rcases map_eq_ok_iff.mp isRead with ⟨resolution, isResolution, rfl⟩
  exact ⟨resolution, Reader.whole_resolution_eq_ok_iff.mp isResolution, rfl⟩

/-- The length that a text is has a value, but for dimensions that have none. -/
theorem isNaN_pixelsOfText_iff (isRead : pixelsOfText text = .ok value) :
    value.isNaN = true ↔ IsUndefinedDimension text.toList := by
  rcases exists_of_pixelsOfText isRead with ⟨length, isQuantity, rfl⟩
  rw [Length.isNaN_toPixels]
  exact Reader.isNaN_whole_quantity_iff isQuantity

/-- The resolution that a text is has a value, but for dimensions that have none. -/
theorem isNaN_dotsPerInchOfText_iff (isRead : dotsPerInchOfText text = .ok value) :
    value.isNaN = true ↔ IsUndefinedDimension text.toList := by
  rcases exists_of_dotsPerInchOfText isRead with ⟨resolution, isQuantity, rfl⟩
  rw [Resolution.isNaN_toDotsPerInch]
  exact Reader.isNaN_whole_quantity_iff isQuantity

/-- Whether a text is a ratio without a value: both numbers are zero, or both are infinite. -/
def IsUndefinedRatio (text : List Char) : Prop :=
  ∃ upper lower, IsRatio text upper lower ∧
    ((upper.toFloat == 0) = true ∧ (lower.toFloat == 0) = true ∨
      upper.toFloat.isInf = true ∧ lower.toFloat.isInf = true)

/-- The quotient of a ratio has a value, but for ratios that have none. -/
theorem isNaN_decimalOfText_iff (isRead : decimalOfText text = .ok value) :
    value.isNaN = true ↔ IsUndefinedRatio text.toList := by
  have quotient : ∀ upper lower : Numeral, (upper.toFloat / lower.toFloat).isNaN = true ↔
      (upper.toFloat == 0) = true ∧ (lower.toFloat == 0) = true ∨
        upper.toFloat.isInf = true ∧ lower.toFloat.isInf = true := by
    intro upper lower
    rw [Rounding.isNaN_div_iff]
    simp only [upper.isNaN_toFloat, lower.isNaN_toFloat, Bool.false_eq_true, false_or]
  constructor
  · intro undefined
    rcases decimalOfText_eq_ok_iff.mp isRead with
      ⟨_, isValue⟩ | @⟨upper, lower, _, _, isRatio, isFirst, isSecond⟩
    · rw [Rounding.div_one, Numeral.isValue_iff.mp isValue, Numeral.isNaN_toFloat] at undefined
      exact absurd undefined Bool.false_ne_true
    · rw [Numeral.isValue_iff.mp isFirst, Numeral.isValue_iff.mp isSecond] at undefined
      exact ⟨upper, lower, isRatio, (quotient upper lower).mp undefined⟩
  · rintro ⟨upper, lower, isRatio, opposed⟩
    have same := isRead.symm.trans
      (decimalOfText_eq_ok_iff.mpr (.ratio isRatio upper.isValue_toFloat lower.isValue_toFloat))
    rw [Except.ok.inj same]
    exact (quotient upper lower).mpr opposed

end Readers

end MediaQuery
