import MediaQuery.Proofs.Feature.Case
import MediaQuery.Proofs.Query.Invariant
import MediaQuery.Query.Evaluation

/-!
# Letter case of queries

A text and its copy in small letters read as the same queries, but for the values, which
are pieces of the text and small where the text is. So letter case counts for the
keywords among the values and for nothing else.
-/

namespace MediaQuery

namespace Component

/-- A component in small letters. -/
def lower : Component → Component
  | .token lexeme => .token lexeme.lower
  | .block opener content => .block opener.lower (content.map Lexeme.lower)

theorem ofLexemes_map_lower (lexemes : List Lexeme) :
    ofLexemes (lexemes.map Lexeme.lower) = (ofLexemes lexemes).map lower := by
  induction lexemes using ofLexemes_induction with
  | nil => rfl
  | token lexeme rest opens ih =>
      have opensLower : lexeme.lower.token.opens = none :=
        (Token.opens_lower lexeme.token).trans opens
      rw [List.map_cons, ofLexemes_token opensLower, ofLexemes_token opens, ih]
      rfl
  | block lexeme rest bracket opens ih =>
      have opensLower : lexeme.lower.token.opens = some bracket :=
        (Token.opens_lower lexeme.token).trans opens
      rw [List.map_cons, ofLexemes_block opensLower, ofLexemes_block opens,
        Lexeme.blockContent_map_lower, List.length_map, ← List.map_drop, ih]
      rfl

theorem isBlank_lower (component : Component) : component.lower.isBlank = component.isBlank := by
  cases component with
  | token lexeme => exact Token.isBlank_lower lexeme.token
  | block opener content => rfl

/-- A text and its copy in small letters have the same components up to letter case. -/
theorem map_lower_ofText (text : List Char) :
    (ofText (Text.lower text)).map lower = (ofText text).map lower := by
  have filtered : ∀ components : List Component,
      (components.filter fun component => !component.isBlank).map lower =
        (components.map lower).filter fun component => !component.isBlank := by
    intro components
    rw [List.filter_map]
    congr 2
    funext component
    simp [isBlank_lower]
  rw [ofText, ofText, filtered, filtered, ← ofLexemes_map_lower, ← ofLexemes_map_lower,
    Lexeme.map_lower_ofText]

theorem name?_lower (component : Component) :
    component.lower.name? = component.name?.map Text.lower := by
  rcases component with ⟨token, text⟩ | ⟨opener, content⟩
  · cases token <;> rfl
  · rfl

theorem test?_lower (component : Component) :
    component.lower.test? = component.test?.map FeatureTest.lowerValue := by
  rcases component with lexeme | ⟨opener, content⟩
  · rfl
  · have round : opener.lower.token = .opening .round ↔ opener.token = .opening .round := by
      rcases opener with ⟨token, text⟩
      cases token <;> simp [Lexeme.lower, Token.lower]
    rw [lower, test?, test?, content?_block, content?_block]
    by_cases opens : opener.token = .opening .round
    · rw [if_pos opens, if_pos (round.mpr opens)]
      exact FeatureTest.ofBlock?_map_lower content
    · rw [if_neg opens, if_neg (mt round.mp opens)]
      rfl

end Component

namespace Qualifier

theorem ofName?_lower (name : List Char) : ofName? (Text.lower name) = ofName? name := by
  simp [ofName?]

theorem take_map_lower (components : List Component) :
    take (components.map Component.lower) =
      ((take components).1, (take components).2.map Component.lower) := by
  cases components with
  | nil => rfl
  | cons component rest =>
      have same : component.lower.name?.bind ofName? = component.name?.bind ofName? := by
        rw [Component.name?_lower, Option.bind_map]
        congr 1
        exact funext ofName?_lower
      rw [List.map_cons, take_cons, take_cons, same]
      split <;> rfl

end Qualifier

namespace Query

/-- A query with all its values in small letters. -/
def lowerValues (query : Query) : Query :=
  { query with tests := query.tests.map FeatureTest.lowerValue }

theorem leadingType?_map_lower (components : List Component) :
    leadingType? (components.map Component.lower) = leadingType? components := by
  cases components with
  | nil => rfl
  | cons component rest =>
      simp only [List.map_cons, leadingType?, Component.name?_lower, Option.map_map,
        Function.comp_def, Text.lower_lower]

theorem ofComponents_map_lower (components : List Component) :
    ofComponents (components.map Component.lower) = (ofComponents components).lowerValues := by
  have tests : (components.map Component.lower).filterMap Component.test? =
      (components.filterMap Component.test?).map FeatureTest.lowerValue := by
    rw [List.filterMap_map, List.map_filterMap]
    congr 1
    exact funext Component.test?_lower
  rw [ofComponents_eq, ofComponents_eq, Qualifier.take_map_lower, leadingType?_map_lower, tests]
  rfl

/-- A text in small letters has no other values than small ones. -/
theorem lowerValues_ofText_lower (text : List Char) :
    (ofText (Text.lower text)).lowerValues = ofText (Text.lower text) := by
  have small : ∀ test ∈ (ofText (Text.lower text)).tests, test.lowerValue = test := by
    intro test member
    apply FeatureTest.lowerValue_eq_self
    intro value isValue character inside
    have within := ((isReadFrom_ofText _).tests test member).value value isValue
    exact Text.isUpper_of_mem_lower character (within.2.2.subset inside)
  have same : (ofText (Text.lower text)).tests.map FeatureTest.lowerValue =
      (ofText (Text.lower text)).tests := by
    rw [List.map_congr_left small, List.map_id']
  rw [lowerValues, same]

theorem ofText_lower (text : List Char) : ofText (Text.lower text) = (ofText text).lowerValues := by
  calc ofText (Text.lower text)
      = (ofText (Text.lower text)).lowerValues := (lowerValues_ofText_lower text).symm
    _ = ofComponents ((Component.ofText (Text.lower text)).map Component.lower) :=
        (ofComponents_map_lower _).symm
    _ = ofComponents ((Component.ofText text).map Component.lower) := by
        rw [Component.map_lower_ofText]
    _ = (ofText text).lowerValues := ofComponents_map_lower _

theorem evaluate_lowerValues {query : Query}
    (asks : ∀ test ∈ query.tests, test.isMalformed = false → test.AsksSmall)
    (environment : Environment) (options : MatchOptions) :
    query.lowerValues.evaluate environment options = query.evaluate environment options := by
  have tests : query.lowerValues.tests.all (fun test => test.evaluate environment options) =
      query.tests.all fun test => test.evaluate environment options := by
    rw [lowerValues, List.all_map, Bool.eq_iff_iff, List.all_eq_true, List.all_eq_true]
    apply forall₂_congr
    intro test member
    rw [Function.comp_apply, FeatureTest.evaluate_lowerValue (asks test member)]
  unfold evaluate
  rw [tests]
  rfl

end Query

theorem Text.splitAtCommas_lower (text : List Char) :
    splitAtCommas (lower text) = (splitAtCommas text).map lower := by
  induction text with
  | nil => rfl
  | cons character rest ih =>
      have noLetter : Char.isAlpha ',' = false := by decide
      by_cases comma : character = ','
      · simp [splitAtCommas, comma, ih]
      · have otherLower : character.toLower ≠ ',' :=
          mt (Character.toLower_eq_iff noLetter character).mp comma
        rw [lower_cons, splitAtCommas_cons otherLower, splitAtCommas_cons comma, ih]
        cases splitAtCommas rest <;> rfl

namespace QueryList

/--
A text in small letters reads as the same queries with their values in small letters, and
holds whenever the text itself does, unless a test asks for a keyword with a capital letter.
-/
theorem ofString_toLower (text : String) :
    ofString text.toLower = (ofString text).map Query.lowerValues ∧
      ∀ environment options,
        (∀ query ∈ ofString text, ∀ test ∈ query.tests, test.isMalformed = false →
          test.AsksSmall) →
        evaluateText text.toLower environment options =
          evaluateText text environment options := by
  have read : ofString text.toLower = (ofString text).map Query.lowerValues := by
    rw [ofString, ofString, Text.toList_toLower, Text.splitAtCommas_lower, List.map_map,
      List.map_map]
    exact List.map_congr_left fun part _ => Query.ofText_lower part
  refine ⟨read, fun environment options asks => ?_⟩
  rw [evaluateText, evaluateText, read, evaluate, evaluate, List.any_map, Bool.eq_iff_iff,
    List.any_eq_true, List.any_eq_true]
  apply exists_congr
  intro query
  apply and_congr_right
  intro member
  rw [Function.comp_apply, Query.evaluate_lowerValues (asks query member)]

/-- A unit, an exponent and an escape in capital letters, and a keyword in small ones. -/
theorem ofString_toLower_units :
    let text := "NOT \\54V AND (Min-Width: 48EM) and (WIDTH:1E3pX), (Orientation: portrait"
    ofString text.toLower = (ofString text).map Query.lowerValues ∧
      ∀ environment options,
        evaluateText text.toLower environment options =
          evaluateText text environment options := by
  intro text
  have lowered := ofString_toLower text
  have read : ofString text =
      [⟨true, false, "tv", [⟨.min, "width", some "48EM", false⟩,
          ⟨.exact, "width", some "1E3pX", false⟩]⟩,
        ⟨false, false, "all", [⟨.exact, "orientation", some "portrait", false⟩]⟩] := by decide
  refine ⟨lowered.1, fun environment options => lowered.2 environment options ?_⟩
  simp [read, FeatureTest.AsksSmall]

end QueryList

end MediaQuery
