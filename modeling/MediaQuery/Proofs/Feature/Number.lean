import MediaQuery.Proofs.Feature.Bound

/-!
# Numbers that are reported as texts

A text that spells a number is that number to every feature with numbers as values: a length in
pixels, a resolution in dots per inch, and a ratio to one. Beyond these texts, only dimensions are
lengths, and only two numbers with a slash between them are ratios.
-/

namespace MediaQuery

variable {text : String} {value : Float}

namespace Reader

/-- A number is read as so many pixels, as so many dots per inch, and as a ratio to one. -/
theorem whole_of_whole_number (isNumber : whole number text = .ok value) :
    whole length text = .ok ⟨value, .pixels⟩ ∧ whole resolution text = .ok ⟨value, .perInch⟩ ∧
      whole ratio text = .ok ⟨value, 1⟩ := by
  rcases whole_number_eq_ok_iff.mp isNumber with ⟨numeral, isQuantity, rfl⟩
  refine ⟨?_, ?_, ?_⟩
  · apply whole_length_eq_ok_iff.mpr
    exact whole_quantity_eq_ok_iff_solid.mpr (Or.inl ⟨numeral, isQuantity, rfl, rfl⟩)
  · apply whole_resolution_eq_ok_iff.mpr
    exact whole_quantity_eq_ok_iff_solid.mpr (Or.inl ⟨numeral, isQuantity, rfl, rfl⟩)
  · exact whole_ratio_eq_ok_iff.mpr (Or.inl ⟨numeral, isQuantity, rfl⟩)

end Reader

/-- A length that is no number is a dimension with a unit of length. -/
theorem exists_dimension_of_pixelsOfText (noNumber : ∀ value, Reader.number.whole text ≠ .ok value)
    (isRead : pixelsOfText text = .ok value) :
    ∃ numeral suffix spelled unit, IsDimension text.toList numeral suffix spelled ∧
      Text.lower suffix = LengthUnit.name unit := by
  rcases exists_of_pixelsOfText isRead with ⟨length, isQuantity, _⟩
  rcases Reader.whole_quantity_eq_ok_iff_solid.mp isQuantity with
    ⟨numeral, isNumber, _, _⟩ | ⟨numeral, suffix, spelled, isDimension, isUnit, _⟩
  · exact absurd (Reader.whole_number_eq_ok_iff.mpr ⟨numeral, isNumber, rfl⟩) (noNumber _)
  · exact ⟨numeral, suffix, spelled, length.unit, isDimension,
      LengthUnit.ofName?_eq_some_iff.mp isUnit⟩

/-- A ratio that is no number has a second number after a slash. -/
theorem exists_ratio_of_decimalOfText (noNumber : ∀ value, Reader.number.whole text ≠ .ok value)
    (isRead : decimalOfText text = .ok value) :
    ∃ upper lower, IsRatio text.toList upper lower := by
  rcases decimalOfText_eq_ok_iff.mp isRead with
    ⟨isNumber, _⟩ | ⟨isRatio, _, _⟩
  · exact absurd (Reader.whole_number_eq_ok_iff.mpr ⟨_, isNumber, rfl⟩) (noNumber _)
  · exact ⟨_, _, isRatio⟩

/-- A number and its text are the same value to every kind of features with numbers as values. -/
theorem FeatureKind.toNumber_text {kind : FeatureKind} {ofText : String → Except ReadError Float}
    (numeric : kind.ofText? = some ofText) (isNumber : Reader.number.whole text = .ok value) :
    (FeatureValue.text text).toNumber ofText = (FeatureValue.number value).toNumber ofText := by
  rcases Reader.whole_of_whole_number isNumber with ⟨isLength, isResolution, isRatio⟩
  cases kind with
  | length =>
      cases numeric
      exact map_eq_ok_iff.mpr ⟨_, isLength, rfl⟩
  | ratio =>
      cases numeric
      exact map_eq_ok_iff.mpr ⟨_, isRatio, (Rounding.div_one value).symm⟩
  | resolution =>
      cases numeric
      exact map_eq_ok_iff.mpr ⟨_, isResolution, rfl⟩
  | integer => cases numeric
  | keyword => cases numeric

namespace FeatureTest

theorem accepts_text_eq {test : FeatureTest} {feature : Feature}
    {ofText : String → Except ReadError Float} (known : Feature.ofName? test.name = some feature)
    (numeric : feature.kind.ofText? = some ofText)
    (isNumber : Reader.number.whole text = .ok value) :
    test.accepts (.text text) = test.accepts (.number value) := by
  rw [accepts_eq known, accepts_eq known, Feature.passes_of_ofText? numeric,
    Feature.passes_of_ofText? numeric, FeatureKind.toNumber_text numeric isNumber]

/--
A text that spells a number is read as that number of pixels or of dots per inch and as its ratio to
one, and no test of a length, a ratio or a resolution tells it from the number. A text that does not
spell one is a length only as a dimension, and a ratio only with a second number after a slash.
-/
theorem accepts_number_text (text : String) :
    (∀ value, Reader.number.whole text = .ok value →
      (Reader.length.whole text = .ok ⟨value, .pixels⟩ ∧
        Reader.resolution.whole text = .ok ⟨value, .perInch⟩ ∧
        Reader.ratio.whole text = .ok ⟨value, 1⟩) ∧
      ∀ (test : FeatureTest) (feature : Feature), Feature.ofName? test.name = some feature →
        feature.kind ∈ [.length, .ratio, .resolution] →
        test.accepts (.text text) = test.accepts (.number value)) ∧
    ((∀ value, Reader.number.whole text ≠ .ok value) →
      (∀ pixels, pixelsOfText text = .ok pixels →
        ∃ numeral suffix spelled unit, IsDimension text.toList numeral suffix spelled ∧
          Text.lower suffix = LengthUnit.name unit) ∧
      ∀ quotient, decimalOfText text = .ok quotient →
        ∃ upper lower, IsRatio text.toList upper lower) := by
  refine ⟨fun value isNumber => ⟨Reader.whole_of_whole_number isNumber, ?_⟩, fun noNumber => ?_⟩
  · intro test feature known measured
    have numeric : ∃ ofText, feature.kind.ofText? = some ofText := by
      simp only [List.mem_cons, List.not_mem_nil, or_false] at measured
      rcases measured with kind | kind | kind <;> rw [kind] <;> exact ⟨_, rfl⟩
    rcases numeric with ⟨ofText, numeric⟩
    exact accepts_text_eq known numeric isNumber
  · exact ⟨fun pixels => exists_dimension_of_pixelsOfText noNumber,
      fun quotient => exists_ratio_of_decimalOfText noNumber⟩

/-- A number with a sign, a point and an exponent, and a length and a ratio that are no numbers. -/
theorem accepts_number_text_exponent :
    let test : FeatureTest := { bound := .max, name := "width", value := some "-1cm" }
    (Reader.number.whole " -.5e1" = .ok (-5) ∧
        test.accepts (.text " -.5e1") = test.accepts (.number (-5))) ∧
      ((∀ value, Reader.number.whole "2PX" ≠ .ok value) ∧ pixelsOfText "2PX" = .ok 2 ∧
        ∃ numeral suffix spelled unit, IsDimension "2PX".toList numeral suffix spelled ∧
          Text.lower suffix = LengthUnit.name unit) ∧
      (∀ value, Reader.number.whole "4/2" ≠ .ok value) ∧ decimalOfText "4/2" = .ok 2 ∧
        ∃ upper lower, IsRatio "4/2".toList upper lower := by
  intro test
  have isNumber : Reader.number.whole " -.5e1" = .ok (-5) := rfl
  have noNumber : ∀ value, Reader.number.whole "2PX" ≠ .ok value := by
    intro value isNumber
    have refused : Reader.number.whole "2PX" = .error .unexpectedToken := rfl
    cases refused.symm.trans isNumber
  have noSingle : ∀ value, Reader.number.whole "4/2" ≠ .ok value := by
    intro value isNumber
    have refused : Reader.number.whole "4/2" = .error .trailingInput := rfl
    cases refused.symm.trans isNumber
  have isLength : pixelsOfText "2PX" = .ok 2 := rfl
  have isRatio : decimalOfText "4/2" = .ok 2 := rfl
  refine ⟨⟨isNumber, ?_⟩, ⟨noNumber, isLength, ?_⟩, noSingle, isRatio, ?_⟩
  · exact ((accepts_number_text " -.5e1").1 _ isNumber).2 test .width rfl (by decide)
  · exact ((accepts_number_text "2PX").2 noNumber).1 _ isLength
  · exact ((accepts_number_text "4/2").2 noSingle).2 _ isRatio

end FeatureTest

end MediaQuery
