import MediaQuery.Proofs.Query.Evaluation
import MediaQuery.Proofs.Query.Invariant

/-!
# What a match depends on

A query looks up the names of its tests and the media type, and nothing else that is
reported. A malformed test looks up nothing, though it keeps its text where the others
keep a name.
-/

namespace MediaQuery

namespace Environment

/-- An environment without the value under a name. -/
def remove (environment : Environment) (name : String) : Environment where
  entries := environment.others name
  distinct := environment.distinct.sublist (List.filter_sublist.map Prod.fst)

/-- A removal takes away the value under its name and leaves those under other names alone. -/
theorem get?_remove (environment : Environment) (name other : String) :
    (environment.remove name).get? other =
      if other = name then none else environment.get? other := by
  by_cases same : other = name
  · subst same
    have gone : ∀ entry ∈ environment.others other, other ≠ entry.1 := by
      intro entry member
      have kept := (List.mem_filter.mp member).2
      exact Ne.symm (by simpa using kept)
    simpa [get?, remove, List.lookup_eq_none_iff] using gone
  · rw [if_neg same]
    exact environment.lookup_others same

/--
Two environments whose media types count alike: neither reports one, both report the
same name, or both report something that is no name.
-/
inductive SameType (left right : Environment) : Prop
  | absent (noLeft : left.mediaType? = none) (noRight : right.mediaType? = none)
  | named (name : String) (ofLeft : left.mediaType? = some (.text name))
      (ofRight : right.mediaType? = some (.text name))
  | other (leftValue rightValue : FeatureValue) (ofLeft : left.mediaType? = some leftValue)
      (ofRight : right.mediaType? = some rightValue) (noTextLeft : leftValue.text? = none)
      (noTextRight : rightValue.text? = none)

variable {left right : Environment}

theorem SameType.of_get?_eq (same : left.get? "type" = right.get? "type") :
    SameType left right := by
  have sameType : left.mediaType? = right.mediaType? := by rw [mediaType?, mediaType?, same]
  rcases reported : right.mediaType? with _ | value
  · exact .absent (sameType.trans reported) reported
  · cases text : value.text? with
    | none => exact .other value value (sameType.trans reported) reported text text
    | some name =>
        have isText : value = .text name := by
          cases value <;> simp_all [FeatureValue.text?]
        subst isText
        exact .named name (sameType.trans reported) reported

end Environment

variable {left right : Environment} {options : MatchOptions}

theorem FeatureTest.evaluate_congr {test : FeatureTest}
    (same : test.isMalformed = false → left.get? test.name = right.get? test.name) :
    test.evaluate left options = test.evaluate right options := by
  by_cases malformed : test.isMalformed = true
  · rw [evaluate, evaluate, if_pos malformed, if_pos malformed]
  · rw [evaluate, evaluate, same (by simpa using malformed)]

namespace Query

variable {query : Query}

theorem matchesType_congr (typed : left.SameType right) :
    query.matchesType left = query.matchesType right := by
  unfold matchesType
  cases typed with
  | absent noLeft noRight => rw [noLeft, noRight]
  | named name ofLeft ofRight => rw [ofLeft, ofRight]
  | other leftValue rightValue ofLeft ofRight noTextLeft noTextRight =>
      rw [ofLeft, ofRight]
      simp only [noTextLeft, noTextRight]

theorem evaluate_congr (typed : left.SameType right)
    (same : ∀ test ∈ query.tests, test.isMalformed = false →
      left.get? test.name = right.get? test.name) :
    query.evaluate left options = query.evaluate right options :=
  evaluate_congr_of_tests (matchesType_congr typed) fun test member =>
    FeatureTest.evaluate_congr (same test member)

end Query

namespace QueryList

/-- Whether one of the queries has a test of the feature with a given name. -/
def Tests (list : QueryList) (name : String) : Prop :=
  ∃ query ∈ list, ∃ test ∈ query.tests, test.isMalformed = false ∧ test.name = name

theorem evaluate_congr {list : QueryList} (typed : left.SameType right)
    (same : ∀ name, list.Tests name → left.get? name = right.get? name) :
    list.evaluate left options = list.evaluate right options := by
  apply evaluate_congr_of_queries
  intro query member
  apply Query.evaluate_congr typed
  intro test among wellFormed
  exact same test.name ⟨query, member, test, among, wellFormed, rfl⟩

/-- A value under a name that is not looked up can be any, or none. -/
theorem evaluate_congr_of_untested {list : QueryList} {name : String} (noType : name ≠ "type")
    (untested : ¬ list.Tests name)
    (others : ∀ other, other ≠ name → left.get? other = right.get? other) :
    list.evaluate left options = list.evaluate right options := by
  apply evaluate_congr (Environment.SameType.of_get?_eq (others "type" (Ne.symm noType)))
  intro other tested
  apply others
  rintro rfl
  exact untested tested

theorem isUpper_of_tests {text : String} {name : String} (tested : (ofString text).Tests name) :
    ∀ character ∈ name.toList, character.isUpper = false := by
  rcases tested with ⟨query, member, test, among, _, rfl⟩
  exact ((isReadFrom_of_mem member).1.tests test among).small

/--
Whether a text holds depends on the options, on the media type as far as it is a name, and
on the values under the names of its well-formed tests. Nothing else that is reported makes
a difference, in particular no value under a name with a capital letter.
-/
theorem evaluateText_congr (text : String) (options : MatchOptions) :
    (∀ left right : Environment, left.SameType right →
        (∀ name, (ofString text).Tests name → left.get? name = right.get? name) →
        evaluateText text left options = evaluateText text right options) ∧
      (∀ name, name ≠ "type" → ¬ (ofString text).Tests name → ∀ environment : Environment,
        (∀ value, evaluateText text (environment.insert name value) options =
          evaluateText text environment options) ∧
        evaluateText text (environment.remove name) options =
          evaluateText text environment options) ∧
      ∀ name : String, (∃ character ∈ name.toList, character.isUpper = true) →
        name ≠ "type" ∧ ¬ (ofString text).Tests name := by
  refine ⟨fun left right typed same => evaluate_congr typed same, ?_, ?_⟩
  · intro name noType untested environment
    constructor
    · intro value
      apply evaluate_congr_of_untested noType untested
      intro other different
      rw [Environment.get?_insert, if_neg different]
    · apply evaluate_congr_of_untested noType untested
      intro other different
      rw [Environment.get?_remove, if_neg different]
  · rintro name ⟨character, member, upper⟩
    constructor
    · rintro rfl
      have small : "type".toList.any Char.isUpper = false := by decide
      rw [Bool.eq_false_iff.mpr (List.any_eq_false.mp small character member)] at upper
      exact absurd upper (by decide)
    · intro tested
      rw [isUpper_of_tests tested character member] at upper
      exact absurd upper (by decide)

/--
Two environments that agree on `width` alone and report no name as the media type. Of the other
entries one is the text of a malformed test, one a name with its bound and one has a capital
letter.
-/
theorem evaluateText_congr_ignored :
    let text := "SCREEN and (Min-Width: 500px), not (\\57idth) and (min-width 500px)"
    let left := Environment.ofList [("type", .bool true), ("width", .number 800)]
    let right := Environment.ofList [("min-width 500px", .bool true), ("Width", .number 3),
      ("width", .number 800), ("min-width", .text "1px"), ("type", .number 3)]
    ∀ options, left.SameType right ∧
      (∀ name, (ofString text).Tests name → left.get? name = right.get? name) ∧
      evaluateText text left options = evaluateText text right options ∧
      ("min-width" ≠ "type" ∧ ¬ (ofString text).Tests "min-width" ∧
        evaluateText text (left.insert "min-width" (.number 1)) options =
          evaluateText text left options) ∧
      ¬ (ofString text).Tests "Width" := by
  intro text left right options
  have read : ofString text =
      [⟨false, false, "screen", [⟨.min, "width", some "500px", false⟩]⟩,
        ⟨true, false, "all", [⟨.exact, "width", none, false⟩, .malformed "min-width 500px"]⟩] := by
    decide
  have typed : left.SameType right :=
    .other (.bool true) (.number 3) rfl rfl rfl rfl
  have tested : ∀ name, (ofString text).Tests name → name = "width" := by
    rintro name ⟨query, member, test, among, wellFormed, rfl⟩
    simp only [read, List.mem_cons, List.not_mem_nil, or_false] at member
    rcases member with rfl | rfl <;>
      simp only [List.mem_cons, List.not_mem_nil, or_false] at among
    · rw [among]
    · rcases among with rfl | rfl
      · rfl
      · exact absurd wellFormed (by decide)
  have same : ∀ name, (ofString text).Tests name → left.get? name = right.get? name := by
    intro name isTested
    rw [tested name isTested]
    rfl
  have untested : ¬ (ofString text).Tests "min-width" := fun isTested =>
    absurd (tested _ isTested) (by decide)
  rcases evaluateText_congr text options with ⟨congr, ignored, capital⟩
  refine ⟨typed, same, congr left right typed same, ⟨by decide, untested, ?_⟩, ?_⟩
  · exact (ignored "min-width" (by decide) untested left).1 (.number 1)
  · exact (capital "Width" ⟨'W', by decide, by decide⟩).2

end QueryList

end MediaQuery
