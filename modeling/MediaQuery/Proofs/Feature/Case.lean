import MediaQuery.Feature.Evaluation
import MediaQuery.Proofs.Feature.Test
import MediaQuery.Proofs.Quantity.Case

/-!
# Letter case of tests

A test keeps its value as it is written, and nothing else in it depends on letter case.
The value counts in any case too, unless it is a keyword, which is compared as it stands.
-/

namespace MediaQuery

namespace FeatureTest

/-- A test with its value in small letters. -/
def lowerValue (test : FeatureTest) : FeatureTest :=
  { test with value := test.value.map String.toLower }

theorem valueOf_map_lower (lexemes : List Lexeme) :
    valueOf (lexemes.map Lexeme.lower) = (valueOf lexemes).map String.toLower := by
  unfold valueOf
  rw [Lexeme.skipBlank_map_lower, Lexeme.textOf_map_lower, Text.trim_lower]
  rcases Text.trim (Lexeme.textOf (Lexeme.skipBlank lexemes)) with _ | ⟨first, rest⟩
  · rfl
  · exact congrArg some (Text.toLower_ofList (first :: rest)).symm

theorem malformed_lower (block : List Char) :
    malformed (String.ofList (Text.lower block)) = malformed (String.ofList block) := by
  simp [malformed]

/-- Lexemes in small letters are the same test, its value in small letters. -/
theorem ofLexemes?_map_lower (lexemes : List Lexeme) :
    ofLexemes? (lexemes.map Lexeme.lower) = (ofLexemes? lexemes).map lowerValue := by
  match lexemes with
  | [] => rfl
  | ⟨token, text⟩ :: rest =>
      cases token with
      | ident name =>
          have lowered : (⟨.ident name, text⟩ : Lexeme).lower =
            ⟨.ident (Text.lower name), Text.lower text⟩ := rfl
          rw [List.map_cons, lowered]
          simp only [ofLexemes?, Lexeme.skipBlank_map_lower, Text.lower_lower]
          rcases Lexeme.skipBlank rest with _ | ⟨⟨token, text⟩, value⟩
          · rfl
          · cases token with
            | colon =>
                have colon : (⟨.colon, text⟩ : Lexeme).lower = ⟨.colon, Text.lower text⟩ := rfl
                rw [List.map_cons, colon]
                simp only [valueOf_map_lower]
                rfl
            | _ => rfl
      | _ => rfl

/-- A block in small letters is the same test, its value in small letters. -/
theorem ofBlock?_map_lower (content : List Lexeme) :
    ofBlock? (content.map Lexeme.lower) = (ofBlock? content).map lowerValue := by
  simp only [ofBlock?, Lexeme.skipBlank_map_lower, ofLexemes?_map_lower]
  rcases ofLexemes? (Lexeme.skipBlank content) with _ | test
  · simp only [Option.map_none, Lexeme.textOf_map_lower, Text.trim_lower]
    rcases Text.trim (Lexeme.textOf (Lexeme.skipBlank content)) with _ | ⟨first, rest⟩
    · rfl
    · exact congrArg some (malformed_lower (first :: rest))
  · rfl

end FeatureTest

namespace Feature

variable {feature : Feature} {test : FeatureTest}

theorem passesNumber_lowerValue {ofText : String → Except ReadError Float}
    (caseless : ∀ text, ofText text.toLower = ofText text) :
    passesNumber ofText test.lowerValue = passesNumber ofText test := by
  funext actual
  rcases test with ⟨bound, name, _ | value, isMalformed⟩
  · rfl
  · simp only [passesNumber, FeatureTest.lowerValue, Option.map_some, caseless]

theorem passesInteger_lowerValue (actual : FeatureValue) :
    feature.passesInteger test.lowerValue actual = feature.passesInteger test actual := by
  rcases test with ⟨bound, name, _ | value, isMalformed⟩
  · rfl
  · simp only [passesInteger, FeatureTest.lowerValue, Option.map_some, integerOfText_toLower]

/-- Values pass a test in any letter case, keywords as far as they have no capital letter. -/
theorem passes_lowerValue (keyword : feature.kind = .keyword → test.lowerValue = test)
    (actual : FeatureValue) :
    feature.passes test.lowerValue actual = feature.passes test actual := by
  unfold passes
  cases kind : feature.kind with
  | length => simp only [passesNumber_lowerValue pixelsOfText_toLower]
  | ratio => simp only [passesNumber_lowerValue decimalOfText_toLower]
  | resolution => simp only [passesNumber_lowerValue dotsPerInchOfText_toLower]
  | integer => exact passesInteger_lowerValue actual
  | keyword => rw [keyword kind]

theorem name_of_kind_keyword {name : String} (found : ofName? name = some feature)
    (keyword : feature.kind = .keyword) : name = "orientation" ∨ name = "scan" := by
  unfold ofName? at found
  split at found <;> cases found <;> simp_all [kind]

end Feature

namespace FeatureTest

/-- Whether a test that compares keywords asks for one without a capital letter. -/
def AsksSmall (test : FeatureTest) : Prop :=
  test.name = "orientation" ∨ test.name = "scan" →
    ∀ value ∈ test.value, ∀ character ∈ value.toList, character.isUpper = false

theorem lowerValue_eq_self {test : FeatureTest}
    (small : ∀ value ∈ test.value, ∀ character ∈ value.toList, character.isUpper = false) :
    test.lowerValue = test := by
  rcases test with ⟨bound, name, _ | value, isMalformed⟩
  · rfl
  · simp only [lowerValue, Option.map_some, Text.toLower_eq_self (small value rfl)]

theorem evaluate_lowerValue {test : FeatureTest} (asks : test.isMalformed = false → test.AsksSmall)
    (environment : Environment) (options : MatchOptions) :
    test.lowerValue.evaluate environment options = test.evaluate environment options := by
  by_cases malformed : test.isMalformed = true
  · have malformedLower : test.lowerValue.isMalformed = true := malformed
    rw [evaluate, evaluate, if_pos malformed, if_pos malformedLower]
  · have wellFormed : test.isMalformed = false := by simpa using malformed
    have accepts : ∀ actual, test.lowerValue.accepts actual = test.accepts actual := by
      intro actual
      unfold accepts
      have sameName : test.lowerValue.name = test.name := rfl
      rw [sameName]
      rcases known : Feature.ofName? test.name with _ | feature
      · rfl
      · have keyword : feature.kind = .keyword → test.lowerValue = test := fun isKeyword =>
          lowerValue_eq_self (asks wellFormed (Feature.name_of_kind_keyword known isKeyword))
        simp only [Feature.passes_lowerValue keyword]
    unfold evaluate
    simp only [accepts]
    rfl

end FeatureTest

end MediaQuery
