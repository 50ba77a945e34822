import Mathlib.Data.List.Basic
import MediaQuery.Proofs.Feature.Test
import MediaQuery.Proofs.Query.Component
import MediaQuery.Proofs.Query.Reader
import MediaQuery.Query.Evaluation

/-!
# Which brackets become tests

Every round bracket of a query that no other bracket encloses is looked at here,
also one that a name touches. The main statement says which of them become tests:
those that no name touches and that hold a feature test or some text beside white
space, each of them once and in order. A block whose only text is white space to
Unicode but none to the reader of tokens holds something and is lost all the same,
and so is every block that a name touches.
-/

namespace MediaQuery

/-- A round bracket that no other one encloses: the lexeme that opens it and its content. -/
structure Opening where
  opener : Lexeme
  content : List Lexeme
  deriving DecidableEq, Repr

namespace Opening

/-- The round brackets of lexemes that stand where nothing is open, in order. -/
def ofLexemes : List Bracket → List Lexeme → List Opening
  | _, [] => []
  | brackets, lexeme :: rest =>
      let later := ofLexemes (lexeme.token.nest brackets) rest
      if brackets = [] ∧ lexeme.token.opens = some .round then
        ⟨lexeme, Lexeme.blockContent [.round] rest⟩ :: later
      else
        later

/-- The round brackets of a text that stand where nothing is open, in order. -/
def ofText (text : List Char) : List Opening :=
  ofLexemes [] (Lexeme.ofText text)

/-- Whether the brackets hold anything beside spaces and comments. -/
def isFilled (opening : Opening) : Bool :=
  opening.content.any fun lexeme => !lexeme.isBlank

/-- Whether the brackets hold the name of a feature, and a colon if they hold more. -/
def isFeatureTest (opening : Opening) : Bool :=
  (FeatureTest.ofLexemes? (Lexeme.skipBlank opening.content)).isSome

/-- Whether the text in the brackets, spaces and comments before it left out, is white space. -/
def isWhiteSpace (opening : Opening) : Bool :=
  (Text.trim (Lexeme.textOf (Lexeme.skipBlank opening.content))).isEmpty

/-- Whether no name touches the brackets and they hold a feature test or a text. -/
def isKept (opening : Opening) : Bool :=
  decide (opening.opener.token = .opening .round) &&
    (opening.isFeatureTest || !opening.isWhiteSpace)

/-- The test that the brackets become, if they become one. -/
def test? (opening : Opening) : Option FeatureTest :=
  if opening.opener.token = .opening .round then FeatureTest.ofBlock? opening.content else none

theorem isSome_test? (opening : Opening) : opening.test?.isSome = opening.isKept := by
  unfold test? isKept
  split
  · rename_i bracket
    simp only [bracket, decide_true, Bool.true_and, isFeatureTest, isWhiteSpace,
      FeatureTest.ofBlock?]
    rcases FeatureTest.ofLexemes? (Lexeme.skipBlank opening.content) with _ | test
    · rcases Text.trim (Lexeme.textOf (Lexeme.skipBlank opening.content)) with _ | ⟨first, rest⟩
      · rfl
      · rfl
    · rfl
  · rename_i function
    simp [function]

theorem isFilled_of_isKept {opening : Opening} (kept : opening.isKept = true) :
    opening.isFilled = true := by
  by_contra empty
  have blank : Lexeme.skipBlank opening.content = [] := by
    apply List.dropWhile_eq_nil_iff.mpr
    simpa [isFilled] using empty
  rw [isKept, isFeatureTest, isWhiteSpace, blank] at kept
  simp [FeatureTest.ofLexemes?, Lexeme.textOf, Text.trim, Text.trimEnd] at kept

/-- Inside a block no bracket counts, so the search goes on behind the block. -/
theorem ofLexemes_of_ne_nil {brackets : List Bracket} (nonempty : brackets ≠ [])
    (lexemes : List Lexeme) :
    ofLexemes brackets lexemes =
      ofLexemes [] (lexemes.drop ((Lexeme.blockContent brackets lexemes).length + 1)) := by
  induction lexemes generalizing brackets with
  | nil => simp [ofLexemes]
  | cons lexeme rest ih =>
      rw [ofLexemes, if_neg (fun outside => nonempty outside.1), Lexeme.blockContent_cons]
      split
      · rename_i closes
        simp [closes]
      · rename_i stays
        simpa using ih stays

/-- The tests that components hold are those of the brackets. -/
theorem filterMap_ofLexemes (lexemes : List Lexeme) :
    (Component.ofLexemes lexemes).filterMap Component.test? =
      (ofLexemes [] lexemes).filterMap test? := by
  induction lexemes using Component.ofLexemes_induction with
  | nil => rfl
  | token lexeme rest opens ih =>
      rw [Component.ofLexemes_token opens, ofLexemes, Token.nest_nil_of_opens_eq_none opens]
      rw [List.filterMap_cons, Component.test?_token, ih]
      simp [opens]
  | block lexeme rest bracket opens ih =>
      rw [Component.ofLexemes_block opens, ofLexemes, Token.nest_of_opens opens,
        ofLexemes_of_ne_nil (List.cons_ne_nil _ _), List.filterMap_cons, ih,
        Component.test?, Component.content?_block]
      by_cases touched : lexeme.token = .opening .round
      · have same : bracket = .round := by simpa [touched, Token.opens] using opens.symm
        subst same
        rw [if_pos touched, if_pos ⟨rfl, opens⟩, List.filterMap_cons, test?, if_pos touched]
        rfl
      · by_cases round : bracket = .round
        · simp [touched, opens, round, test?]
        · simp [touched, opens, round]

theorem filterMap_test? (openings : List Opening) :
    (openings.filterMap test?).map some =
      (openings.filter isKept).map fun opening => FeatureTest.ofBlock? opening.content := by
  induction openings with
  | nil => rfl
  | cons opening rest ih =>
      have kept := isSome_test? opening
      rcases found : opening.test? with _ | test
      · rw [found] at kept
        simp [found, ← kept, ih]
      · have round : opening.opener.token = .opening .round := by
          by_contra function
          simp [test?, function] at found
        rw [found] at kept
        rw [test?, if_pos round] at found
        simp [test?, round, found, ← kept, ih]

/-- Brackets that hold no feature test become a malformed one, if they become a test. -/
theorem isMalformed_of_isFeatureTest {opening : Opening} {test : FeatureTest}
    (found : FeatureTest.ofBlock? opening.content = some test)
    (other : opening.isFeatureTest = false) : test.isMalformed = true := by
  rcases FeatureTest.ofBlock?_eq_some found with isTest | ⟨_, _, rfl⟩
  · simp [isFeatureTest, isTest] at other
  · rfl

/-- Nothing is lost exactly if all brackets that hold something are kept. -/
theorem map_filter_eq_iff (openings : List Opening) (block : Opening → Option FeatureTest) :
    (openings.filter isKept).map block = (openings.filter isFilled).map block ↔
      ∀ opening ∈ openings, opening.isFilled = true → opening.isKept = true := by
  constructor
  · intro same
    have counts := congrArg List.length same
    rw [List.length_map, List.length_map] at counts
    have sublist : (openings.filter isKept).Sublist (openings.filter isFilled) :=
      List.monotone_filter_right openings fun opening kept => isFilled_of_isKept kept
    have equal := sublist.eq_of_length counts
    intro opening member filled
    have found : opening ∈ openings.filter isFilled := List.mem_filter.mpr ⟨member, filled⟩
    rw [← equal] at found
    exact (List.mem_filter.mp found).2
  · intro all
    rw [List.filter_congr]
    intro opening member
    rw [Bool.eq_iff_iff]
    exact ⟨isFilled_of_isKept, all opening member⟩

end Opening

namespace Query

theorem tests_ofText (text : List Char) :
    (ofText text).tests = (Opening.ofText text).filterMap Opening.test? := by
  have blank : ∀ component : Component,
      (if (!component.isBlank) = true then component.test? else none) = component.test? := by
    rintro (lexeme | ⟨opener, content⟩)
    · simp
    · simp [Component.isBlank]
  rw [Opening.ofText, ← Opening.filterMap_ofLexemes, ofText, ofComponents_eq]
  simp only [Component.ofText, List.filterMap_filter, blank]

theorem exists_test_of_isKept {text : List Char} {opening : Opening}
    (member : opening ∈ Opening.ofText text) (kept : opening.isKept = true) :
    ∃ test ∈ (ofText text).tests, FeatureTest.ofBlock? opening.content = some test := by
  have round : opening.opener.token = .opening .round := by
    simp only [Opening.isKept, Bool.and_eq_true, decide_eq_true_eq] at kept
    exact kept.1
  rw [← Opening.isSome_test?] at kept
  rcases Option.isSome_iff_exists.mp kept with ⟨test, found⟩
  refine ⟨test, ?_, by simpa [Opening.test?, round] using found⟩
  rw [tests_ofText]
  exact List.mem_filterMap.mpr ⟨opening, member, found⟩

theorem evaluate_of_mem {query : Query} {environment : Environment} {options : MatchOptions}
    (plain : query.negated = false) (holds : query.evaluate environment options = true)
    {test : FeatureTest} (member : test ∈ query.tests) :
    test.evaluate environment options = true := by
  rw [evaluate_of_positive plain, Bool.and_eq_true] at holds
  exact List.all_eq_true.mp holds.2 test member

/-- A query that holds and is not negated has feature tests in all brackets that are kept. -/
theorem isFeatureTest_of_evaluate {text : List Char} {environment : Environment}
    {options : MatchOptions} (plain : (ofText text).negated = false)
    (holds : (ofText text).evaluate environment options = true) {opening : Opening}
    (member : opening ∈ Opening.ofText text) (kept : opening.isKept = true) :
    opening.isFeatureTest = true ∧ ∃ test ∈ (ofText text).tests,
      FeatureTest.ofBlock? opening.content = some test ∧
        test.evaluate environment options = true := by
  rcases exists_test_of_isKept member kept with ⟨test, among, found⟩
  have passes := evaluate_of_mem plain holds among
  refine ⟨?_, test, among, found, passes⟩
  by_contra other
  have malformed := Opening.isMalformed_of_isFeatureTest found (by simpa using other)
  rw [FeatureTest.evaluate, if_pos malformed] at passes
  exact absurd passes (by decide)

/--
The round brackets of a query that become tests, and what follows for the others.
The tests are those of the brackets that are kept, each once and in order; they
are those of all brackets that hold something exactly if all of these are kept.
A query that is not negated holds only if all brackets that are kept are feature
tests that hold.
-/
theorem tests_eq_openings (text : List Char) :
    (ofText text).tests.map some =
        ((Opening.ofText text).filter Opening.isKept).map
          (fun opening => FeatureTest.ofBlock? opening.content) ∧
      ((ofText text).tests.map some =
          ((Opening.ofText text).filter Opening.isFilled).map
            (fun opening => FeatureTest.ofBlock? opening.content) ↔
        ∀ opening ∈ Opening.ofText text, opening.isFilled = true → opening.isKept = true) ∧
      ∀ environment options,
        ((ofText text).negated = false → (ofText text).evaluate environment options = true →
          ∀ opening ∈ Opening.ofText text, opening.isKept = true →
            opening.isFeatureTest = true ∧ ∃ test ∈ (ofText text).tests,
              FeatureTest.ofBlock? opening.content = some test ∧
                test.evaluate environment options = true) ∧
        ((ofText text).negated = false →
          (∃ opening ∈ Opening.ofText text, opening.isKept = true ∧
            opening.isFeatureTest = false) →
          (ofText text).evaluate environment options = false) := by
  have tests : (ofText text).tests.map some =
      ((Opening.ofText text).filter Opening.isKept).map
        (fun opening => FeatureTest.ofBlock? opening.content) := by
    rw [tests_ofText, Opening.filterMap_test?]
  refine ⟨tests, ?_, fun environment options => ⟨?_, ?_⟩⟩
  · rw [tests]
    exact Opening.map_filter_eq_iff _ _
  · intro plain holds opening member kept
    exact isFeatureTest_of_evaluate plain holds member kept
  · rintro plain ⟨opening, member, kept, other⟩
    by_contra holds
    have feature := (isFeatureTest_of_evaluate plain (by simpa using holds) member kept).1
    rw [other] at feature
    exact absurd feature (by decide)

/--
A block that holds a vertical tabulator and a block that a name touches both hold
something, and no test comes of them.
-/
theorem exists_filled_opening_without_test :
    ((Opening.ofText "(\x0b)".toList).any Opening.isFilled = true ∧
        (ofText "(\x0b)".toList).tests = []) ∧
      (Opening.ofText "screen and(min-width: 500px)".toList).any Opening.isFilled = true ∧
        (ofText "screen and(min-width: 500px)".toList).tests = [] := by
  decide

end Query

end MediaQuery
