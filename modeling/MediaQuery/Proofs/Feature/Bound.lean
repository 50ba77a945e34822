import MediaQuery.Feature.Evaluation
import MediaQuery.Proofs.Quantity.Undefined

/-!
# Tests with other bounds

A test compares one value to another, or it asks for something that no bound changes. So an exact
test holds where the tests with the same value as a least and as a greatest one both hold, and one
of these holds wherever both values have a place in an order. A value passes every test that is
written with it, unless it is undefined.
-/

namespace MediaQuery

namespace Bound

section Order

variable {Value : Type} [LE Value] [DecidableLE Value] [BEq Value] {expected actual : Value}

theorem admits_exact
    (separates : (expected == actual) = true ↔ expected ≤ actual ∧ actual ≤ expected) :
    Bound.exact.admits expected actual =
      (Bound.min.admits expected actual && Bound.max.admits expected actual) := by
  rw [Bool.eq_iff_iff, Bool.and_eq_true]
  simp only [admits, decide_eq_true_eq]
  exact separates

theorem admits_min_or_max (total : expected ≤ actual ∨ actual ≤ expected) :
    (Bound.min.admits expected actual || Bound.max.admits expected actual) = true := by
  simpa only [admits, Bool.or_eq_true, decide_eq_true_eq] using total

theorem admits_self_iff (separates : (actual == actual) = true ↔ actual ≤ actual ∧ actual ≤ actual)
    (bound : Bound) : bound.admits actual actual = true ↔ actual ≤ actual := by
  cases bound with
  | exact => exact separates.trans and_self_iff
  | min => exact decide_eq_true_iff
  | max => exact decide_eq_true_iff

end Order

theorem separates_int (left right : Int) :
    (left == right) = true ↔ left ≤ right ∧ right ≤ left := by
  rw [beq_iff_eq]
  omega

/--
What a test comes to for each bound: a comparison of two numbers or of two counts, or the same
result whatever the bound is.
-/
inductive IsComparison : (Bound → Bool) → Prop
  | fixed (result : Bool) : IsComparison fun _ => result
  | number (expected actual : Float) : IsComparison fun bound => bound.admits expected actual
  | count (expected actual : Int) : IsComparison fun bound => bound.admits expected actual

theorem IsComparison.exact {results : Bound → Bool} (isComparison : IsComparison results) :
    results .exact = (results .min && results .max) := by
  cases isComparison with
  | fixed result => exact (Bool.and_self result).symm
  | number expected actual => exact admits_exact (Rounding.beq_iff expected actual)
  | count expected actual => exact admits_exact (separates_int expected actual)

end Bound

namespace FeatureKind

/-- How the features of a kind read a text as a number, if their values are numbers. -/
def ofText? : FeatureKind → Option (String → Except ReadError Float)
  | .length => some pixelsOfText
  | .ratio => some decimalOfText
  | .resolution => some dotsPerInchOfText
  | .integer => none
  | .keyword => none

/-- The values that the features of a kind can read, as numbers or as counts. -/
inductive Reads : FeatureKind → FeatureValue → Prop
  | number {kind : FeatureKind} {ofText : String → Except ReadError Float} {value : FeatureValue}
      {number : Float} (numeric : kind.ofText? = some ofText)
      (read : value.toNumber ofText = .ok number) : Reads kind value
  | count {value : FeatureValue} {count : Int} (read : value.toInteger = .ok count) :
      Reads .integer value

/-- The values that the features of a kind can put in order: counts, and all defined numbers. -/
inductive Orders : FeatureKind → FeatureValue → Prop
  | number {kind : FeatureKind} {ofText : String → Except ReadError Float} {value : FeatureValue}
      {number : Float} (numeric : kind.ofText? = some ofText)
      (read : value.toNumber ofText = .ok number) (defined : number.isNaN = false) :
      Orders kind value
  | count {value : FeatureValue} {count : Int} (read : value.toInteger = .ok count) :
      Orders .integer value

/-- Whether a text has no value for a kind of features, although it can be read. -/
def IsUndefined (kind : FeatureKind) (text : String) : Prop :=
  match kind with
  | .length => IsUndefinedDimension text.toList
  | .ratio => IsUndefinedRatio text.toList
  | .resolution => IsUndefinedDimension text.toList
  | .integer => False
  | .keyword => False

/-- Without an escape, every text that can be read has a value, unless it is a ratio. -/
theorem not_isUndefined_of_plain {kind : FeatureKind} {text : String} (noRatio : kind ≠ .ratio)
    (plain : '\\' ∉ text.toList) (reads : kind.Reads (.text text)) : ¬ kind.IsUndefined text := by
  cases reads with
  | count read => exact id
  | number numeric read =>
      cases kind with
      | length =>
          cases numeric
          rcases exists_of_pixelsOfText read with ⟨length, isQuantity, rfl⟩
          exact Reader.not_isUndefinedDimension_of_plain
            (fun _ _ => LengthUnit.ofName?_eq_some_iff) LengthUnit.isUnitName plain isQuantity
      | resolution =>
          cases numeric
          rcases exists_of_dotsPerInchOfText read with ⟨resolution, isQuantity, rfl⟩
          exact Reader.not_isUndefinedDimension_of_plain
            (fun _ _ => ResolutionUnit.ofName?_eq_some_iff) ResolutionUnit.isUnitName plain
            isQuantity
      | ratio => exact absurd rfl noRatio
      | integer => cases numeric
      | keyword => cases numeric

/-- What is read as a number is undefined only where the text has no value. -/
theorem isNaN_iff_isUndefined {kind : FeatureKind} {ofText : String → Except ReadError Float}
    {text : String} {number : Float} (numeric : kind.ofText? = some ofText)
    (read : ofText text = .ok number) : number.isNaN = true ↔ kind.IsUndefined text := by
  cases kind with
  | length =>
      cases numeric
      exact isNaN_pixelsOfText_iff read
  | ratio =>
      cases numeric
      exact isNaN_decimalOfText_iff read
  | resolution =>
      cases numeric
      exact isNaN_dotsPerInchOfText_iff read
  | integer => cases numeric
  | keyword => cases numeric

end FeatureKind

/-- Features with numbers as values all pass in one way. -/
theorem Feature.passes_of_ofText? {feature : Feature} {ofText : String → Except ReadError Float}
    (numeric : feature.kind.ofText? = some ofText) (test : FeatureTest) (actual : FeatureValue) :
    feature.passes test actual = (actual.toNumber ofText).bind (passesNumber ofText test) := by
  unfold passes
  generalize feature.kind = kind at numeric ⊢
  cases kind <;> cases numeric <;> rfl

namespace FeatureTest

/-- A test with another bound. -/
def bounded (test : FeatureTest) (bound : Bound) : FeatureTest :=
  { test with bound }

@[simp]
theorem name_bounded (test : FeatureTest) (bound : Bound) : (test.bounded bound).name = test.name :=
  rfl

@[simp]
theorem isMalformed_bounded (test : FeatureTest) (bound : Bound) :
    (test.bounded bound).isMalformed = test.isMalformed :=
  rfl

variable {test : FeatureTest} {feature : Feature} {actual : FeatureValue} {text : String}

theorem accepts_eq (known : Feature.ofName? test.name = some feature) (actual : FeatureValue) :
    test.accepts actual = (feature.passes test actual).toOption.getD false := by
  rw [accepts, known]
  rcases passes : feature.passes test actual with error | result <;> simp [passes, Except.toOption]

theorem accepts_eq_true_iff (known : Feature.ofName? test.name = some feature) :
    test.accepts actual = true ↔ feature.passes test actual = .ok true := by
  rw [accepts_eq known]
  rcases feature.passes test actual with error | result <;> simp [Except.toOption]

/-- A test of numbers compares two of them if both can be read. -/
theorem isComparison_passesNumber (test : FeatureTest) (ofText : String → Except ReadError Float)
    (read : Except ReadError Float) :
    Bound.IsComparison fun bound =>
      (read.bind (Feature.passesNumber ofText (test.bounded bound))).toOption.getD false := by
  rcases test with ⟨_, name, value, isMalformed⟩
  rcases read with error | number
  · exact .fixed false
  rcases value with _ | text
  · exact .fixed (number != 0)
  simp only [Except.bind, Feature.passesNumber, bounded]
  rcases ofText text with error | expected
  · exact .fixed false
  · exact .number expected number

/-- A test of counts compares two of them if both can be read. -/
theorem isComparison_passesInteger (test : FeatureTest) (feature : Feature)
    (actual : FeatureValue) :
    Bound.IsComparison fun bound =>
      (feature.passesInteger (test.bounded bound) actual).toOption.getD false := by
  rcases test with ⟨_, name, value, isMalformed⟩
  rcases value with _ | text
  · exact .fixed ((feature.countsPresent actual).toOption.getD false)
  simp only [Feature.passesInteger, bounded]
  rcases actual.toInteger with error | count
  · exact .fixed false
  rcases integerOfText text with error | expected
  · exact .fixed false
  · exact .count expected count

theorem isComparison_accepts (test : FeatureTest) (actual : FeatureValue) :
    Bound.IsComparison fun bound => (test.bounded bound).accepts actual := by
  rcases known : Feature.ofName? test.name with _ | feature
  · have refused : ∀ bound, (test.bounded bound).accepts actual = false := by
      intro bound
      rw [accepts]
      simp only [name_bounded, known]
    simp only [refused]
    exact .fixed false
  · have passed : ∀ bound, (test.bounded bound).accepts actual =
        (feature.passes (test.bounded bound) actual).toOption.getD false :=
      fun bound => @accepts_eq (test.bounded bound) feature known actual
    simp only [passed, Feature.passes]
    cases feature.kind with
    | length => exact isComparison_passesNumber test pixelsOfText actual.toPixels
    | ratio => exact isComparison_passesNumber test decimalOfText actual.toDecimal
    | resolution => exact isComparison_passesNumber test dotsPerInchOfText actual.toDotsPerInch
    | integer => exact isComparison_passesInteger test feature actual
    | keyword => exact .fixed (Feature.passesKeyword test actual)

/-- Whatever the environment reports, a test is a comparison or no bound changes it. -/
theorem isComparison_evaluate (test : FeatureTest) (environment : Environment)
    (options : MatchOptions) :
    Bound.IsComparison fun bound => (test.bounded bound).evaluate environment options := by
  simp only [evaluate, name_bounded, isMalformed_bounded]
  by_cases malformed : test.isMalformed = true
  · simp only [malformed, if_true]
    exact .fixed false
  · simp only [malformed]
    rcases environment.get? test.name with _ | actual
    · exact .fixed (options.absentFeature == .pass)
    · exact isComparison_accepts test actual

/-- Two numbers that can be read are compared. -/
theorem accepts_number {ofText : String → Except ReadError Float} {expected number : Float}
    (known : Feature.ofName? test.name = some feature) (isValue : test.value = some text)
    (numeric : feature.kind.ofText? = some ofText) (isActual : actual.toNumber ofText = .ok number)
    (isExpected : ofText text = .ok expected) :
    test.accepts actual = test.bound.admits expected number := by
  rw [accepts_eq known, Feature.passes_of_ofText? numeric, isActual]
  simp only [Except.bind, Feature.passesNumber, isValue, isExpected]
  rfl

/-- Two counts that can be read are compared. -/
theorem accepts_count {expected count : Int} (known : Feature.ofName? test.name = some feature)
    (isInteger : feature.kind = .integer) (isValue : test.value = some text)
    (isActual : actual.toInteger = .ok count) (isExpected : integerOfText text = .ok expected) :
    test.accepts actual = test.bound.admits expected count := by
  rw [accepts_eq known, Feature.passes, isInteger]
  simp only [Feature.passesInteger, isValue, isActual, isExpected]
  rfl

/-- Of two values that can be put in order, one is within the bound of the other. -/
theorem accepts_min_or_max (known : Feature.ofName? test.name = some feature)
    (isValue : test.value = some text) (ordersActual : feature.kind.Orders actual)
    (ordersText : feature.kind.Orders (.text text)) :
    ((test.bounded .min).accepts actual || (test.bounded .max).accepts actual) = true := by
  have known : ∀ bound, Feature.ofName? (test.bounded bound).name = some feature := fun _ => known
  have isValue : ∀ bound, (test.bounded bound).value = some text := fun _ => isValue
  generalize isKind : feature.kind = kind at ordersActual ordersText
  cases ordersActual with
  | number numeric isActual defined =>
      cases ordersText with
      | number numericText isExpected definedText =>
          cases Option.some.inj (numeric.symm.trans numericText)
          rw [← isKind] at numeric
          rw [accepts_number (known .min) (isValue .min) numeric isActual isExpected,
            accepts_number (known .max) (isValue .max) numeric isActual isExpected]
          exact Bound.admits_min_or_max (Rounding.le_or_le definedText defined)
      | count => cases numeric
  | count isActual =>
      cases ordersText with
      | number numeric => cases numeric
      | count isExpected =>
          rw [accepts_count (known .min) isKind (isValue .min) isActual isExpected,
            accepts_count (known .max) isKind (isValue .max) isActual isExpected]
          exact Bound.admits_min_or_max (Int.le_total _ _)

/--
An exact test holds exactly where the tests for the same value as a least and as a greatest one
both hold, whatever the environment reports. One of these two holds wherever a value is reported
that can be put in order with that of the test.
-/
theorem evaluate_exact (test : FeatureTest) (environment : Environment) (options : MatchOptions) :
    (test.bounded .exact).evaluate environment options =
      ((test.bounded .min).evaluate environment options &&
        (test.bounded .max).evaluate environment options) ∧
    ∀ feature actual text, test.isMalformed = false →
      Feature.ofName? test.name = some feature → environment.get? test.name = some actual →
      test.value = some text → feature.kind.Orders actual → feature.kind.Orders (.text text) →
      ((test.bounded .min).evaluate environment options ||
        (test.bounded .max).evaluate environment options) = true := by
  refine ⟨(isComparison_evaluate test environment options).exact, ?_⟩
  intro feature actual text wellFormed known reported isValue ordersActual ordersText
  simp only [evaluate, name_bounded, isMalformed_bounded, wellFormed, reported]
  exact accepts_min_or_max known isValue ordersActual ordersText

/-- Two infinite ratios, written in two ways, and a feature that is absent but passes. -/
theorem evaluate_exact_infinite :
    let test : FeatureTest := { name := "aspect-ratio", value := some "1/0" }
    let environment := Environment.ofList [("aspect-ratio", .text "1e999")]
    let options : MatchOptions := { absentFeature := .pass }
    FeatureKind.Orders .ratio (.text "1e999") ∧ FeatureKind.Orders .ratio (.text "1/0") ∧
      ((test.bounded .min).evaluate environment options ||
        (test.bounded .max).evaluate environment options) = true := by
  intro test environment options
  have reported : FeatureKind.Orders .ratio (.text "1e999") := .number rfl rfl (by decide +kernel)
  have expected : FeatureKind.Orders .ratio (.text "1/0") := .number rfl rfl (by decide)
  exact ⟨reported, expected, (evaluate_exact test environment options).2 .aspectRatio
    (.text "1e999") "1/0" rfl rfl rfl rfl reported expected⟩

/-- A text that is read as a number passes its own test if it has a value. -/
theorem accepts_own_number {ofText : String → Except ReadError Float} {number : Float}
    (known : Feature.ofName? test.name = some feature) (isValue : test.value = some text)
    (numeric : feature.kind.ofText? = some ofText)
    (read : (FeatureValue.text text).toNumber ofText = .ok number) :
    test.accepts (.text text) = true ↔ ¬ feature.kind.IsUndefined text := by
  rw [accepts_number known isValue numeric read read,
    Bound.admits_self_iff (Rounding.beq_iff number number), Rounding.le_self_iff,
    ← FeatureKind.isNaN_iff_isUndefined numeric read, Bool.not_eq_true]

/--
A text that a feature can read passes every test that is written with it, whatever the bound is,
but for texts without a value. Only ratios and texts with an escape can be such.
-/
theorem accepts_own (known : Feature.ofName? test.name = some feature)
    (isValue : test.value = some text) (reads : feature.kind.Reads (.text text)) :
    (test.accepts (.text text) = true ↔ ¬ feature.kind.IsUndefined text) ∧
      (feature.kind ≠ .ratio → '\\' ∉ text.toList → test.accepts (.text text) = true) := by
  have own : test.accepts (.text text) = true ↔ ¬ feature.kind.IsUndefined text := by
    generalize isKind : feature.kind = kind at reads
    cases reads with
    | number numeric read =>
        rw [← isKind] at numeric ⊢
        exact accepts_own_number known isValue numeric read
    | count read =>
        rw [accepts_count known isKind isValue read read,
          Bound.admits_self_iff (Bound.separates_int _ _)]
        exact iff_of_true (Int.le_refl _) id
  exact ⟨own, fun noRatio plain =>
    own.mpr (FeatureKind.not_isUndefined_of_plain noRatio plain reads)⟩

/-- Two ems in another letter case. -/
theorem accepts_own_ems :
    let test : FeatureTest := { bound := .min, name := "width", value := some "+2eM/**/" }
    FeatureKind.Reads .length (.text "+2eM/**/") ∧ test.accepts (.text "+2eM/**/") = true := by
  intro test
  have reads : FeatureKind.Reads .length (.text "+2eM/**/") := .number rfl rfl
  have own := @accepts_own test .width "+2eM/**/" rfl rfl reads
  exact ⟨reads, own.2 (by decide) (by decide)⟩

/-- A ratio of two zeros, and zero with an exponent that exceeds it and an escape in its unit. -/
theorem refuses_own_undefined :
    (FeatureKind.Reads .ratio (.text "0/0") ∧ ∀ bound : Bound,
      accepts { bound, name := "aspect-ratio", value := some "0/0" } (.text "0/0") = false) ∧
    FeatureKind.Reads .length (.text "0e400\\70x") ∧ ∀ bound : Bound,
      accepts { bound, name := "width", value := some "0e400\\70x" } (.text "0e400\\70x") =
        false := by
  refine ⟨⟨.number rfl rfl, fun bound => ?_⟩, .number rfl rfl, fun bound => ?_⟩
  · cases bound <;> decide
  · cases bound <;> decide +kernel

end FeatureTest

end MediaQuery
