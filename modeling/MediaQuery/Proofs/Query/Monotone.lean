import MediaQuery.Proofs.Feature.Bound
import MediaQuery.Proofs.Number.Order
import MediaQuery.Proofs.Query.Evaluation

/-!
# Bounds in an environment that changes

A test with a least value goes on holding when the device reports more, and one with a
greatest value when it reports less. So do whole queries without a negation, whatever else
they test.
-/

namespace MediaQuery

namespace Bound

variable {Value : Type} [LE Value]

/-- Whether a bound that admits one value has to admit another one too. -/
def Favors (bound : Bound) (first second : Value) : Prop :=
  match bound with
  | .exact => False
  | .min => first ≤ second
  | .max => second ≤ first

theorem Favors.admits [DecidableLE Value] [BEq Value] {bound : Bound} {first second : Value}
    (trans : ∀ {low middle high : Value}, low ≤ middle → middle ≤ high → low ≤ high)
    (favors : bound.Favors first second) {expected : Value}
    (admits : bound.admits expected first = true) : bound.admits expected second = true := by
  cases bound with
  | exact => exact favors.elim
  | min => exact decide_eq_true (trans (of_decide_eq_true admits) favors)
  | max => exact decide_eq_true (trans favors (of_decide_eq_true admits))

/-- What keeps an order keeps what a bound favors. -/
theorem Favors.map {Image : Type} [LE Image] {bound : Bound} {first second : Value}
    {firstImage secondImage : Image} (favors : bound.Favors first second)
    (up : first ≤ second → firstImage ≤ secondImage)
    (down : second ≤ first → secondImage ≤ firstImage) :
    bound.Favors firstImage secondImage := by
  cases bound with
  | exact => exact favors
  | min => exact up favors
  | max => exact down favors

end Bound

/-- A finite number counts as a whole one, and what a bound favors stays so. -/
theorem FeatureValue.exists_toInteger {bound : Bound} {first second : Float}
    (finiteFirst : first.isFinite = true) (finiteSecond : second.isFinite = true)
    (favors : bound.Favors first second) :
    ∃ firstCount secondCount, toInteger (.number first) = .ok firstCount ∧
      toInteger (.number second) = .ok secondCount ∧ bound.Favors firstCount secondCount := by
  rcases Rounding.exists_truncate? finiteFirst with ⟨firstWhole, truncatedFirst⟩
  rcases Rounding.exists_truncate? finiteSecond with ⟨secondWhole, truncatedSecond⟩
  refine ⟨_, _, by rw [toInteger, truncatedFirst], by rw [toInteger, truncatedSecond], ?_⟩
  apply favors.map
  · intro ordered
    exact Rounding.saturate_mono 64
      (Rounding.truncate?_mono ordered truncatedFirst truncatedSecond)
  · intro ordered
    exact Rounding.saturate_mono 64
      (Rounding.truncate?_mono ordered truncatedSecond truncatedFirst)

variable {feature : Feature} {test : FeatureTest} {first second : Float}

namespace Feature

theorem passesNumber_favored {ofText : String → Except ReadError Float}
    (valued : test.value.isSome = true) (favors : test.bound.Favors first second)
    (passes : passesNumber ofText test first = .ok true) :
    passesNumber ofText test second = .ok true := by
  rcases Option.isSome_iff_exists.mp valued with ⟨text, value⟩
  simp only [passesNumber, value] at passes ⊢
  cases read : ofText text with
  | error error => simp [read, Except.map] at passes
  | ok expected =>
      rw [read] at passes
      exact congrArg Except.ok (favors.admits Rounding.le_trans (Except.ok.inj passes))

theorem passesInteger_favored (finiteFirst : first.isFinite = true)
    (finiteSecond : second.isFinite = true) (valued : test.value.isSome = true)
    (favors : test.bound.Favors first second)
    (passes : feature.passesInteger test (.number first) = .ok true) :
    feature.passesInteger test (.number second) = .ok true := by
  rcases Option.isSome_iff_exists.mp valued with ⟨text, value⟩
  rcases FeatureValue.exists_toInteger finiteFirst finiteSecond favors with
    ⟨firstCount, secondCount, countFirst, countSecond, favorsCount⟩
  simp only [passesInteger, value, countFirst, countSecond] at passes ⊢
  cases read : integerOfText text with
  | error error => simp [read, Except.map] at passes
  | ok expected =>
      rw [read] at passes
      exact congrArg Except.ok (favorsCount.admits Int.le_trans (Except.ok.inj passes))

theorem passes_favored (measured : feature.kind ≠ .keyword) (finiteFirst : first.isFinite = true)
    (finiteSecond : second.isFinite = true) (valued : test.value.isSome = true)
    (favors : test.bound.Favors first second)
    (passes : feature.passes test (.number first) = .ok true) :
    feature.passes test (.number second) = .ok true := by
  unfold Feature.passes at passes ⊢
  cases kind : feature.kind with
  | length =>
      rw [kind] at passes
      exact passesNumber_favored valued favors passes
  | ratio =>
      rw [kind] at passes
      exact passesNumber_favored valued favors passes
  | resolution =>
      rw [kind] at passes
      exact passesNumber_favored valued favors passes
  | integer =>
      rw [kind] at passes
      exact passesInteger_favored finiteFirst finiteSecond valued favors passes
  | keyword => exact absurd kind measured

theorem ofName?_ne_type {name : String} (known : ofName? name = some feature) : name ≠ "type" := by
  rintro rfl
  cases known

end Feature

namespace FeatureTest

variable {name : String} {environment : Environment} {options : MatchOptions}

/-- A test of one feature may ask for any bound, as long as it favors the value to come. -/
theorem evaluate_insert_favored (known : Feature.ofName? name = some feature)
    (measured : feature.kind ≠ .keyword) (finiteFirst : first.isFinite = true)
    (finiteSecond : second.isFinite = true)
    (bounded : test.isMalformed = false → test.name = name →
      test.value.isSome = true ∧ test.bound.Favors first second)
    (holds : test.evaluate (environment.insert name (.number first)) options = true) :
    test.evaluate (environment.insert name (.number second)) options = true := by
  cases malformed : test.isMalformed with
  | true => simp [evaluate, malformed] at holds
  | false =>
      simp only [evaluate, malformed, Bool.false_eq_true, if_false, Environment.get?_insert]
        at holds ⊢
      by_cases tested : test.name = name
      · rw [if_pos tested] at holds ⊢
        rw [← tested] at known
        simp only [accepts_eq_true_iff known] at holds ⊢
        rcases bounded malformed tested with ⟨valued, favors⟩
        exact Feature.passes_favored measured finiteFirst finiteSecond valued favors holds
      · rw [if_neg tested] at holds ⊢
        exact holds

end FeatureTest

namespace QueryList

variable {name : String} {environment : Environment} {options : MatchOptions}

theorem evaluate_insert_favored {list : QueryList} (known : Feature.ofName? name = some feature)
    (measured : feature.kind ≠ .keyword) (positive : ∀ query ∈ list, query.negated = false)
    (finiteFirst : first.isFinite = true) (finiteSecond : second.isFinite = true)
    (bounded : ∀ query ∈ list, ∀ test ∈ query.tests, test.isMalformed = false →
      test.name = name → test.value.isSome = true ∧ test.bound.Favors first second)
    (holds : list.evaluate (environment.insert name (.number first)) options = true) :
    list.evaluate (environment.insert name (.number second)) options = true := by
  have typed : ∀ value, (environment.insert name (.number value)).mediaType? =
      environment.mediaType? := by
    intro value
    have noType := (Feature.ofName?_ne_type known).symm
    rw [Environment.mediaType?, Environment.get?_insert, if_neg noType]
    rfl
  refine evaluate_mono_of_queries (fun query member => ?_) holds
  apply Query.evaluate_mono_of_tests (positive query member)
  · rw [Query.matchesType, Query.matchesType, typed, typed]
  · intro test among
    exact FeatureTest.evaluate_insert_favored known measured finiteFirst finiteSecond
      (bounded query member test among)

/--
Where no query is negated and all tests of a measured feature ask for a least value, a text
that holds goes on holding when the feature grows. Where they all ask for a greatest value, it
goes on holding when the feature shrinks.
-/
theorem evaluateText_mono {text name : String} {feature : Feature} {low high : Float}
    (known : Feature.ofName? name = some feature) (measured : feature.kind ≠ .keyword)
    (positive : ∀ query ∈ ofString text, query.negated = false)
    (finiteLow : low.isFinite = true) (finiteHigh : high.isFinite = true) (ordered : low ≤ high)
    (environment : Environment) (options : MatchOptions) :
    ((∀ query ∈ ofString text, ∀ test ∈ query.tests, test.isMalformed = false →
          test.name = name → test.bound = .min ∧ test.value.isSome = true) →
        evaluateText text (environment.insert name (.number low)) options = true →
        evaluateText text (environment.insert name (.number high)) options = true) ∧
      ((∀ query ∈ ofString text, ∀ test ∈ query.tests, test.isMalformed = false →
          test.name = name → test.bound = .max ∧ test.value.isSome = true) →
        evaluateText text (environment.insert name (.number high)) options = true →
        evaluateText text (environment.insert name (.number low)) options = true) := by
  constructor
  · intro least
    apply evaluate_insert_favored known measured positive finiteLow finiteHigh
    intro query member test among wellFormed tested
    rcases least query member test among wellFormed tested with ⟨bound, valued⟩
    rw [bound]
    exact ⟨valued, ordered⟩
  · intro greatest
    apply evaluate_insert_favored known measured positive finiteHigh finiteLow
    intro query member test among wellFormed tested
    rcases greatest query member test among wellFormed tested with ⟨bound, valued⟩
    rw [bound]
    exact ⟨valued, ordered⟩

/--
A count of colors that grows from a fraction to more than fits 64 bits, and a width that shrinks
below a bound too large for the literal's type. The first literal is no integer at all.
-/
theorem evaluateText_mono_saturated :
    let least := "screen and (min-color: 2.5), (MIN-COLOR: 3) and (orientation: portrait)"
    let greatest := "(max-width: 1e39px) and (color), (max-width: 2em)"
    let environment := Environment.ofList
      [("color", .number 1), ("orientation", .text "portrait")]
    ∀ options,
      (evaluateText least (environment.insert "color" (.number 3.75)) options = true ∧
        evaluateText least (environment.insert "color" (.number 1e19)) options = true) ∧
      (evaluateText greatest (environment.insert "width" (.number 1e19)) options = true ∧
        evaluateText greatest (environment.insert "width" (.number 0.5)) options = true) := by
  intro least greatest environment options
  have leastHolds :
      evaluateText least (environment.insert "color" (.number 3.75)) options = true := by
    rcases options with ⟨absent⟩
    cases absent <;> decide
  have greatestHolds :
      evaluateText greatest (environment.insert "width" (.number 1e19)) options = true := by
    rcases options with ⟨absent⟩
    cases absent <;> decide +kernel
  refine ⟨⟨leastHolds, ?_⟩, ⟨greatestHolds, ?_⟩⟩
  · exact (@evaluateText_mono least "color" .color _ _ rfl (by decide) (by decide) (by decide)
      (by decide) (by decide) environment options).1 (by decide) leastHolds
  · exact (@evaluateText_mono greatest "width" .width _ _ rfl (by decide) (by decide) (by decide)
      (by decide) (by decide) environment options).2 (by decide) greatestHolds

end QueryList

end MediaQuery
