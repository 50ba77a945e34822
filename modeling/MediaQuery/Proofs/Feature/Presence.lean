import MediaQuery.Proofs.Feature.Bound

/-!
# Tests without a value

A test without a value asks whether what is reported counts as present. A feature with integer
values takes a number for that if it is truthy. A feature with numbers as values reads what is
reported and takes all but the two zeros, so it takes undefined numbers as well, which are not
truthy.
-/

namespace MediaQuery

/-- The truthy numbers are those that are neither zero of either sign nor undefined. -/
theorem FeatureValue.isTruthy_number_iff (number : Float) :
    isTruthy (.number number) = true ↔ number ≠ 0 ∧ number ≠ -0 ∧ number.isNaN = false :=
  decide_eq_true_iff.trans (Rounding.zero_lt_abs_iff number)

theorem FeatureValue.bne_zero_iff (number : Float) :
    (number != 0) = true ↔ isTruthy (.number number) = true ∨ number.isNaN = true := by
  rw [isTruthy_number_iff, bne, Bool.not_eq_true', ← Bool.not_eq_true, Rounding.beq_zero_iff,
    not_or]
  constructor
  · rintro ⟨positive, negative⟩
    rcases undefined : number.isNaN with _ | _
    · exact Or.inl ⟨positive, negative, rfl⟩
    · exact Or.inr rfl
  · rintro (⟨positive, negative, _⟩ | undefined)
    · exact ⟨positive, negative⟩
    · constructor
      · rintro rfl
        cases undefined
      · rintro rfl
        cases undefined

namespace FeatureKind

/-- Whether a kind of features with numbers as values reads a value as an undefined one. -/
def LacksValue (kind : FeatureKind) : FeatureValue → Prop
  | .bool _ => False
  | .number number => number.isNaN = true
  | .text text => kind.Reads (.text text) ∧ kind.IsUndefined text

variable {kind : FeatureKind} {ofText : String → Except ReadError Float} {actual : FeatureValue}

/-- What lacks a value is what is read as an undefined number. -/
theorem lacksValue_iff (numeric : kind.ofText? = some ofText) :
    kind.LacksValue actual ↔
      ∃ number, actual.toNumber ofText = .ok number ∧ number.isNaN = true := by
  cases actual with
  | bool value => exact iff_of_false id fun ⟨_, read, _⟩ => nomatch read
  | number value =>
      exact ⟨fun undefined => ⟨value, rfl, undefined⟩,
        fun ⟨_, read, undefined⟩ => Except.ok.inj read ▸ undefined⟩
  | text text =>
      constructor
      · rintro ⟨reads, undefined⟩
        cases reads with
        | number other read =>
            cases Option.some.inj (numeric.symm.trans other)
            exact ⟨_, read, (isNaN_iff_isUndefined numeric read).mpr undefined⟩
        | count => cases numeric
      · rintro ⟨number, read, undefined⟩
        exact ⟨.number numeric read, (isNaN_iff_isUndefined numeric read).mp undefined⟩

end FeatureKind

namespace FeatureTest

variable {test : FeatureTest} {feature : Feature}

theorem accepts_bare_of_ofText? {ofText : String → Except ReadError Float}
    (known : Feature.ofName? test.name = some feature) (isBare : test.value = none)
    (numeric : feature.kind.ofText? = some ofText) (actual : FeatureValue) :
    test.accepts actual = true ↔
      ∃ number, actual.toNumber ofText = .ok number ∧ (number != 0) = true := by
  rw [accepts_eq_true_iff known, Feature.passes_of_ofText? numeric]
  rcases actual.toNumber ofText with error | number
  · simp [Except.bind]
  · simp [Except.bind, Feature.passesNumber, isBare]

theorem accepts_bare_number (known : Feature.ofName? test.name = some feature)
    (isBare : test.value = none) (isInteger : feature.kind = .integer) (number : Float) :
    test.accepts (.number number) = FeatureValue.isTruthy (.number number) := by
  rw [accepts_eq known, Feature.passes, isInteger]
  simp only [Feature.passesInteger, isBare, Feature.countsPresent, FeatureValue.text?,
    Option.isNone_none, or_true, if_true]
  rfl

/--
A test without a value holds for what a feature with numbers as values reads as a truthy or an
undefined number. So it asks for a truthy one exactly where what is reported does not lack a value.
For a number, a feature with integer values asks for a truthy one. The truthy numbers are all but
the two zeros and those that are undefined.
-/
theorem accepts_bare (known : Feature.ofName? test.name = some feature)
    (isBare : test.value = none) :
    (∀ ofText, feature.kind.ofText? = some ofText → ∀ actual,
      (test.accepts actual = true ↔ ∃ number, actual.toNumber ofText = .ok number ∧
        (FeatureValue.isTruthy (.number number) = true ∨ number.isNaN = true)) ∧
      ((test.accepts actual = true ↔ ∃ number, actual.toNumber ofText = .ok number ∧
        FeatureValue.isTruthy (.number number) = true) ↔ ¬ feature.kind.LacksValue actual)) ∧
    (feature.kind = .integer → ∀ number,
      test.accepts (.number number) = FeatureValue.isTruthy (.number number)) ∧
    ∀ number, FeatureValue.isTruthy (.number number) = true ↔
      number ≠ 0 ∧ number ≠ -0 ∧ number.isNaN = false := by
  refine ⟨?_, accepts_bare_number known isBare, FeatureValue.isTruthy_number_iff⟩
  intro ofText numeric actual
  rw [accepts_bare_of_ofText? known isBare numeric, FeatureKind.lacksValue_iff numeric]
  simp only [FeatureValue.bne_zero_iff, true_and]
  rcases actual.toNumber ofText with error | number
  · simp
  · simp only [Except.ok.injEq, exists_eq_left', or_iff_left_iff_imp]
    constructor
    · intro truthy undefined
      have defined := ((FeatureValue.isTruthy_number_iff number).mp (truthy undefined)).2.2
      rw [undefined] at defined
      cases defined
    · intro defined undefined
      exact absurd undefined defined

/-- A width of two ems, and a number for which colors count as present. -/
theorem accepts_bare_ems :
    let width : FeatureTest := { bound := .min, name := "width" }
    let color : FeatureTest := { name := "color" }
    (width.accepts (.text "2em") = true ↔
      ∃ number, pixelsOfText "2em" = .ok number ∧
        FeatureValue.isTruthy (.number number) = true) ∧
      ¬ FeatureKind.LacksValue .length (.text "2em") ∧
      color.accepts (.number 0.5) = FeatureValue.isTruthy (.number 0.5) := by
  intro width color
  have defined : ¬ FeatureKind.LacksValue .length (.text "2em") := fun ⟨reads, undefined⟩ =>
    FeatureKind.not_isUndefined_of_plain (by decide) (by decide) reads undefined
  have ofWidth := (@accepts_bare width .width rfl rfl).1 pixelsOfText rfl (.text "2em")
  have ofColor := (@accepts_bare color .color rfl rfl).2.1 rfl 0.5
  exact ⟨ofWidth.2.mpr defined, defined, ofColor⟩

/-- A ratio of two zeros and an undefined number pass, although neither is truthy. -/
theorem accepts_bare_undefined :
    let ratio : FeatureTest := { name := "aspect-ratio" }
    let width : FeatureTest := { name := "width" }
    (ratio.accepts (.text "0/0") = true ∧
      ¬ ∃ number, FeatureValue.toDecimal (.text "0/0") = .ok number ∧
        FeatureValue.isTruthy (.number number) = true) ∧
    width.accepts (.number (0 / 0)) = true ∧
      ¬ ∃ number, FeatureValue.toPixels (.number (0 / 0)) = .ok number ∧
        FeatureValue.isTruthy (.number number) = true := by
  intro ratio width
  have noRatio : FeatureValue.toDecimal (.text "0/0") = .ok (0 / 0) := rfl
  have notTruthy : FeatureValue.isTruthy (.number (0 / 0)) = false := by decide
  refine ⟨⟨by decide, ?_⟩, by decide, ?_⟩
  · rintro ⟨number, read, truthy⟩
    cases Except.ok.inj (noRatio.symm.trans read)
    exact absurd truthy (by rw [notTruthy]; decide)
  · rintro ⟨number, read, truthy⟩
    cases Except.ok.inj read
    exact absurd truthy (by rw [notTruthy]; decide)

end FeatureTest

end MediaQuery
