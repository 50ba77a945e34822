import MediaQuery.Proofs.Query.Comma
import MediaQuery.Proofs.Query.Printable

/-!
# The words of a query

What `and`, `not` and `only` do to a query. A text that closes all it opens, an
`and` and a text that starts with a bracket read as the first of the two with the
tests of both, so both have to hold. A `not` in front of a text makes its
complement, and an `only` makes no difference; that text may leave open what it likes.
-/

namespace MediaQuery

open Token (Apart)

namespace Component

theorem ofText_append_of_isClosed {text after : List Char} (closed : Text.isClosed text = true)
    (apart : Apart after) : ofText (text ++ after) = ofText text ++ ofText after := by
  have reads : Lexeme.Reads text (Lexeme.ofText text) after := by
    apply (Lexeme.Reads.self text).congr (Text.plain_of_isClosed closed) Token.apart_nil apart.stops
    intro lexeme member
    exact Text.isClosed_of_mem closed member
  exact ofText_append_of_reads reads (Text.nestAll_of_isClosed closed)

theorem exists_ofText_bracket (rest : List Char) :
    ∃ content others,
      ofText ('(' :: rest) = .block ⟨.opening .round, ['(']⟩ content :: others := by
  have lexemes : Lexeme.ofText ('(' :: rest) = ⟨.opening .round, ['(']⟩ :: Lexeme.ofText rest :=
    Lexeme.Reads.opening rest
  rw [ofText, lexemes, ofLexemes_block rfl, List.filter_cons_of_pos (by rfl)]
  exact ⟨_, _, rfl⟩

end Component

namespace Qualifier

theorem take_of_unqualified {components : List Component}
    (unqualified : ∀ component ∈ components.head?, component.name?.bind ofName? = none) :
    take components = (none, components) := by
  cases components with
  | nil => rfl
  | cons component rest => rw [take_cons, unqualified component rfl]

theorem take_append {left right : List Component}
    (unqualified : ∀ component ∈ right.head?, component.name?.bind ofName? = none) :
    take (left ++ right) = ((take left).1, (take left).2 ++ right) := by
  cases left with
  | nil => exact take_of_unqualified unqualified
  | cons component rest =>
      rw [List.cons_append, take_cons, take_cons]
      split <;> rfl

theorem isWord_name (qualifier : Qualifier) : Name.IsWord qualifier.name.toList := by
  cases qualifier <;> decide

end Qualifier

namespace Query

theorem leadingType?_append {left right : List Component} (untyped : leadingType? right = none) :
    leadingType? (left ++ right) = leadingType? left := by
  cases left with
  | nil => exact untyped
  | cons component rest => rfl

/-- The word `and` keeps what precedes it, and of what follows the tests are added. -/
theorem ofComponents_append {left right : List Component} {link : Component}
    (shown : (Part.word "and").Shows link) :
    ofComponents (left ++ link :: right) =
      { ofComponents left with
        tests := (ofComponents left).tests ++ (ofComponents right).tests } := by
  have taken : Qualifier.take (left ++ link :: right) =
      ((Qualifier.take left).1, (Qualifier.take left).2 ++ link :: right) := by
    apply Qualifier.take_append
    intro component member
    have same : link = component := by simpa using member
    subst same
    rw [Qualifier.ofName?_of_shows shown]
    rfl
  -- On its own, or behind a lone qualifier, the word would be the first component, and
  -- it is the one name that is no media type.
  have untyped : leadingType? (link :: right) = none := by
    simp [leadingType?, shown.name, Part.name?]
  have noTest : link.test? = none := shown.test
  simp only [ofComponents_eq, taken, leadingType?_append untyped, List.filterMap_append,
    List.filterMap_cons, noTest]

theorem ofText_and {left : List Char} (closed : Text.isClosed left = true) (right : List Char) :
    ofText (left ++ " and ".toList ++ right) =
      { ofText left with tests := (ofText left).tests ++ (ofText right).tests } := by
  have apart : Apart (' ' :: ("and".toList ++ ' ' :: right)) :=
    ⟨Text.stops_cons.mpr (by decide), rfl⟩
  rcases @Part.exists_ofText_word "and" (by decide) "and".toList (by decide) right with
    ⟨link, shown, components⟩
  have whole : left ++ " and ".toList ++ right = left ++ ' ' :: ("and".toList ++ ' ' :: right) := by
    simp
  rw [whole, ofText, Component.ofText_append_of_isClosed closed apart,
    Part.ofText_space (by decide), components, ofComponents_append shown]
  rfl

variable {query : Query} {environment : Environment} {options : MatchOptions}

theorem evaluate_append_of_positive (positive : query.negated = false)
    (tests : List FeatureTest) :
    evaluate { query with tests := query.tests ++ tests } environment options =
      (query.evaluate environment options &&
        tests.all fun test => test.evaluate environment options) := by
  have longer : ({ query with tests := query.tests ++ tests } : Query).negated = false := positive
  rw [evaluate_of_positive longer, evaluate_of_positive positive, List.all_append, Bool.and_assoc]
  rfl

theorem evaluate_append_of_negated (negated : query.negated = true) (tests : List FeatureTest) :
    evaluate { query with tests := query.tests ++ tests } environment options =
      (query.evaluate environment options ||
        !tests.all fun test => test.evaluate environment options) := by
  simp only [evaluate, negated, if_true, List.all_append, ← Bool.not_and, Bool.and_assoc]
  rfl

/-- A query that starts with a bracket has nothing but tests. -/
theorem evaluate_ofText_bracket (rest : List Char) :
    (ofText ('(' :: rest)).evaluate environment options =
      (ofText ('(' :: rest)).tests.all fun test => test.evaluate environment options := by
  rcases Component.exists_ofText_bracket rest with ⟨content, others, components⟩
  have positive : (ofText ('(' :: rest)).negated = false := by
    rw [ofText, components]
    rfl
  have everyType : (ofText ('(' :: rest)).mediaType = "all" := by
    rw [ofText, components]
    rfl
  rw [evaluate_of_positive positive, matchesType, everyType]
  simp

/--
The word `and` between a text that closes all it opens and one that starts with a
bracket means that both hold. The qualifier and the media type are those of the
first text, and the tests are those of both in order; where the first text is
negated, the whole holds if the first text does or the second one does not.
-/
theorem ofString_and {left right : String} (closed : Text.isClosed left.toList = true)
    (noCommaLeft : ',' ∉ left.toList) (noCommaRight : ',' ∉ right.toList)
    (bracket : right.toList.head? = some '(') :
    ofString (left ++ " and " ++ right) =
        { ofString left with tests := (ofString left).tests ++ (ofString right).tests } ∧
      ∀ environment options,
        ((ofString left).negated = false →
          evaluateText (left ++ " and " ++ right) environment options =
            (evaluateText left environment options && evaluateText right environment options)) ∧
        ((ofString left).negated = true →
          evaluateText (left ++ " and " ++ right) environment options =
            (evaluateText left environment options ||
              !evaluateText right environment options)) := by
  have joined : ofString (left ++ " and " ++ right) =
      { ofString left with tests := (ofString left).tests ++ (ofString right).tests } := by
    have read := ofText_and closed right.toList
    rwa [← String.toList_append, ← String.toList_append] at read
  have noComma : ',' ∉ (left ++ " and " ++ right).toList := by
    simp [noCommaLeft, noCommaRight]
  refine ⟨joined, fun environment options => ?_⟩
  have tests : (ofString right).evaluate environment options =
      (ofString right).tests.all fun test => test.evaluate environment options := by
    rcases List.head?_eq_some_iff.mp bracket with ⟨rest, spelled⟩
    rw [ofString, spelled]
    exact evaluate_ofText_bracket rest
  rw [QueryList.evaluateText_of_not_mem noComma, QueryList.evaluateText_of_not_mem noCommaLeft,
    QueryList.evaluateText_of_not_mem noCommaRight, joined, tests]
  constructor
  · intro positive
    exact evaluate_append_of_positive positive (ofString right).tests
  · intro negated
    exact evaluate_append_of_negated negated (ofString right).tests

/-- Two feature tests behind a negated media type, the second one left open. -/
theorem ofString_and_open :
    ofString ("NOT tv" ++ " and " ++ "(color) and (width: 1px") =
        { ofString "NOT tv" with
          tests := (ofString "NOT tv").tests ++ (ofString "(color) and (width: 1px").tests } ∧
      ∀ environment options,
        evaluateText ("NOT tv" ++ " and " ++ "(color) and (width: 1px") environment options =
          (evaluateText "NOT tv" environment options ||
            !evaluateText "(color) and (width: 1px" environment options) := by
  have joined := @ofString_and "NOT tv" "(color) and (width: 1px" (by decide) (by decide)
    (by decide) (by decide)
  exact ⟨joined.1, fun environment options => (joined.2 environment options).2 (by decide)⟩

/-- A qualifier in front of components without one adds itself and nothing else. -/
theorem ofComponents_cons {qualifier : Qualifier} {component : Component}
    (shown : (Part.word qualifier.name).Shows component) {components : List Component}
    (positive : (ofComponents components).negated = false)
    (unmarked : (ofComponents components).markedOnly = false) :
    ofComponents (component :: components) =
      { ofComponents components with
        negated := qualifier == .negation, markedOnly := qualifier == .only } := by
  have found : component.name?.bind Qualifier.ofName? = some qualifier := by
    rw [Qualifier.ofName?_of_shows shown]
    exact Qualifier.ofWord?_name qualifier
  have taken : Qualifier.take (component :: components) = (some qualifier, components) := by
    rw [Qualifier.take_cons, found]
  have noTest : component.test? = none := shown.test
  simp [ofComponents_eq, taken, take_of_ofComponents positive unmarked, noTest]

/-- The word of a qualifier, in any letter case, in front of a text without one. -/
theorem ofString_cons {qualifier : Qualifier} {word clause : String}
    (cased : Text.lower word.toList = qualifier.name.toList)
    (positive : (ofString clause).negated = false)
    (unmarked : (ofString clause).markedOnly = false) :
    ofString (word ++ " " ++ clause) =
      { ofString clause with
        negated := qualifier == .negation, markedOnly := qualifier == .only } := by
  have spelled : (word ++ " " ++ clause).toList = word.toList ++ ' ' :: clause.toList := by
    simp
  rcases Part.exists_ofText_word qualifier.isWord_name cased clause.toList with
    ⟨component, shown, components⟩
  rw [ofString, ofText, spelled, components]
  exact ofComponents_cons shown positive unmarked

theorem evaluateText_cons {qualifier : Qualifier} {word clause : String}
    (cased : Text.lower word.toList = qualifier.name.toList) (noComma : ',' ∉ clause.toList)
    (environment : Environment) (options : MatchOptions) :
    evaluateText (word ++ " " ++ clause) environment options =
      (ofString (word ++ " " ++ clause)).evaluate environment options := by
  have isWord : Name.IsWord word.toList := Name.isWord_of_lower (cased ▸ qualifier.isWord_name)
  have noCommaWord : ',' ∉ word.toList := isWord.not_mem (by decide)
  apply QueryList.evaluateText_of_not_mem
  simp [noCommaWord, noComma]

theorem evaluate_negated (positive : query.negated = false) :
    evaluate { query with negated := true } environment options =
      !query.evaluate environment options := by
  rw [evaluate_of_positive positive]
  rfl

/--
The word `not` in front of a text without a qualifier means that the text does not
hold, and the word `only` means nothing, both in any letter case. Neither changes
the media type or the tests, whatever the text starts with and leaves open.
-/
theorem ofString_qualified {clause : String} (noComma : ',' ∉ clause.toList)
    (positive : (ofString clause).negated = false)
    (unmarked : (ofString clause).markedOnly = false) :
    (∀ word : String, Text.lower word.toList = "not".toList →
        ofString (word ++ " " ++ clause) = { ofString clause with negated := true } ∧
          ∀ environment options,
            evaluateText (word ++ " " ++ clause) environment options =
              !evaluateText clause environment options) ∧
      ∀ word : String, Text.lower word.toList = "only".toList →
        ofString (word ++ " " ++ clause) = { ofString clause with markedOnly := true } ∧
          ∀ environment options,
            evaluateText (word ++ " " ++ clause) environment options =
              evaluateText clause environment options := by
  constructor
  · intro word cased
    have read : ofString (word ++ " " ++ clause) = { ofString clause with negated := true } := by
      rw [@ofString_cons .negation _ _ cased positive unmarked]
      exact congrArg (fun markedOnly => Query.mk true markedOnly _ _) unmarked.symm
    refine ⟨read, fun environment options => ?_⟩
    rw [@evaluateText_cons .negation _ _ cased noComma, read,
      QueryList.evaluateText_of_not_mem noComma]
    exact evaluate_negated positive
  · intro word cased
    have read : ofString (word ++ " " ++ clause) =
        { ofString clause with markedOnly := true } := by
      rw [@ofString_cons .only _ _ cased positive unmarked]
      exact congrArg (fun negated => Query.mk negated true _ _) positive.symm
    refine ⟨read, fun environment options => ?_⟩
    rw [@evaluateText_cons .only _ _ cased noComma, read, QueryList.evaluateText_of_not_mem noComma]
    rfl

/-- Both words in front of a text that starts with `and` and leaves a bracket open. -/
theorem ofString_qualified_open :
    (ofString ("nOt" ++ " " ++ "and (width: [") =
        { ofString "and (width: [" with negated := true } ∧
      ∀ environment options,
        evaluateText ("nOt" ++ " " ++ "and (width: [") environment options =
          !evaluateText "and (width: [" environment options) ∧
      ofString ("ONLY" ++ " " ++ "and (width: [") =
        { ofString "and (width: [" with markedOnly := true } ∧
      ∀ environment options,
        evaluateText ("ONLY" ++ " " ++ "and (width: [") environment options =
          evaluateText "and (width: [" environment options := by
  have words := @ofString_qualified "and (width: [" (by decide) (by decide) (by decide)
  exact ⟨words.1 "nOt" (by decide), words.2 "ONLY" (by decide)⟩

end Query

end MediaQuery
