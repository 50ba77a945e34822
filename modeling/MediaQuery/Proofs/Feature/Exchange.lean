import MediaQuery.Proofs.Feature.Bound

/-!
# Exchanging values

The value that a test is written with and a text that is reported are read in the same way, and
each bound has an opposite one. So the two texts can change places if the bound is turned around,
also where one of them cannot be read.
-/

namespace MediaQuery

namespace Bound

/-- The bound that an actual value sets to the expected one where that one sets this bound. -/
def opposite : Bound → Bound
  | .exact => .exact
  | .min => .max
  | .max => .min

section Order

variable {Value : Type} [LE Value] [DecidableLE Value] [BEq Value]

theorem admits_opposite (symmetric : ∀ left right : Value, (left == right) = (right == left))
    (bound : Bound) (expected actual : Value) :
    bound.opposite.admits actual expected = bound.admits expected actual := by
  cases bound with
  | exact => exact symmetric actual expected
  | min => rfl
  | max => rfl

/-- Whether two values can be read, and the second is within the bound that the first sets. -/
def admitsRead (bound : Bound) : Except ReadError Value → Except ReadError Value → Bool
  | .ok expected, .ok actual => bound.admits expected actual
  | .ok _, .error _ => false
  | .error _, _ => false

/-- It does not matter on which side a value cannot be read. -/
theorem admitsRead_opposite (symmetric : ∀ left right : Value, (left == right) = (right == left))
    (bound : Bound) (expected actual : Except ReadError Value) :
    bound.opposite.admitsRead actual expected = bound.admitsRead expected actual := by
  rcases expected with error | expected
  · cases actual <;> rfl
  · rcases actual with error | actual
    · rfl
    · exact admits_opposite symmetric bound expected actual

end Order

end Bound

namespace FeatureTest

variable {test : FeatureTest} {feature : Feature} {written : String}

/-- A test of numbers reads both texts in the way of its feature. -/
theorem accepts_text_of_ofText? {ofText : String → Except ReadError Float}
    (known : Feature.ofName? test.name = some feature) (isValue : test.value = some written)
    (numeric : feature.kind.ofText? = some ofText) (reported : String) :
    test.accepts (.text reported) = test.bound.admitsRead (ofText written) (ofText reported) := by
  rw [accepts_eq known, Feature.passes_of_ofText? numeric, FeatureValue.toNumber]
  rcases ofText reported with error | actual
  · cases ofText written <;> rfl
  · simp only [Except.bind, Feature.passesNumber, isValue]
    cases ofText written <;> rfl

theorem accepts_text_of_integer (known : Feature.ofName? test.name = some feature)
    (isValue : test.value = some written) (isInteger : feature.kind = .integer)
    (reported : String) :
    test.accepts (.text reported) =
      test.bound.admitsRead (integerOfText written) (integerOfText reported) := by
  rw [accepts_eq known, Feature.passes, isInteger]
  simp only [Feature.passesInteger, isValue, FeatureValue.toInteger]
  cases integerOfText reported <;> cases integerOfText written <;> rfl

theorem accepts_text_of_keyword (known : Feature.ofName? test.name = some feature)
    (isValue : test.value = some written) (isKeyword : feature.kind = .keyword)
    (reported : String) : test.accepts (.text reported) = (reported == written) := by
  rw [accepts_eq known, Feature.passes, isKeyword]
  simp only [Feature.passesKeyword, isValue]
  rfl

/--
A test with a value holds for a reported text exactly if the test that is written with that text and
the opposite bound holds for the value. That is so for all features, for texts that cannot be read
as well, and for names that no feature has.
-/
theorem accepts_exchange (bound : Bound) (name written reported : String) (isMalformed : Bool) :
    accepts { bound, name, value := some written, isMalformed } (.text reported) =
      accepts { bound := bound.opposite, name, value := some reported, isMalformed }
        (.text written) := by
  rcases known : Feature.ofName? name with _ | feature
  · simp only [accepts, known]
  have numbers : ∀ ofText, feature.kind.ofText? = some ofText →
      accepts { bound, name, value := some written, isMalformed } (.text reported) =
        accepts { bound := bound.opposite, name, value := some reported, isMalformed }
          (.text written) := by
    intro ofText numeric
    rw [accepts_text_of_ofText? known rfl numeric, accepts_text_of_ofText? known rfl numeric]
    exact (bound.admitsRead_opposite Rounding.beq_comm _ _).symm
  cases kind : feature.kind with
  | length => exact numbers pixelsOfText (by rw [kind]; rfl)
  | ratio => exact numbers decimalOfText (by rw [kind]; rfl)
  | resolution => exact numbers dotsPerInchOfText (by rw [kind]; rfl)
  | integer =>
      rw [accepts_text_of_integer known rfl kind, accepts_text_of_integer known rfl kind]
      exact (bound.admitsRead_opposite (fun _ _ => Bool.beq_comm) _ _).symm
  | keyword =>
      rw [accepts_text_of_keyword known rfl kind, accepts_text_of_keyword known rfl kind]
      exact Bool.beq_comm

/-- Eight hundred pixels are at least forty-eight ems, and these are at most as many pixels. -/
example : accepts { bound := .min, name := "width", value := some "48em" } (.text "800px") = true ∧
    accepts { bound := .max, name := "width", value := some "800px" } (.text "48em") = true := by
  decide

end FeatureTest

end MediaQuery
