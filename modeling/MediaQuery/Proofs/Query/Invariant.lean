import MediaQuery.Proofs.Feature.Test
import MediaQuery.Proofs.Query.Comma
import MediaQuery.Proofs.Query.Component
import MediaQuery.Proofs.Query.Reader

/-!
# What every query looks like

Whatever a text holds, the queries that are read from it are of one form: at most one
qualifier, a media type that is none of the words around it, and tests whose names
and values are as a test needs them. Escapes do not get around this, since they are
resolved before a name is compared with a word.
-/

namespace MediaQuery

namespace Query

/-- The media type is a name of the text or the one that stands for none. -/
theorem mediaType_cases (text : List Char) :
    (ofText text).mediaType = "all" ∨
      ∃ name spelled, ⟨.ident name, spelled⟩ ∈ Lexeme.ofText text ∧
        (ofText text).mediaType = String.ofList (Text.lower name) := by
  rw [ofText, ofComponents_eq]
  rcases leadingType?_cases (Qualifier.take (Component.ofText text)).2 with all | ⟨front, first,
    name, isName, _, found⟩
  · exact Or.inl all
  · right
    have member := (Qualifier.take_suffix _).subset (List.mem_of_head? first)
    rcases Component.exists_ident_of_name? member isName with ⟨spelled, among⟩
    exact ⟨name, spelled, among, found⟩

theorem isReadFrom_of_mem_tests {text : List Char} {test : FeatureTest}
    (member : test ∈ (ofText text).tests) : test.IsReadFrom text := by
  rcases exists_block_of_mem_tests member with ⟨opener, content, among, _, found⟩
  have inside : content <:+: Lexeme.ofText text :=
    Component.infix_of_block_mem (List.mem_filter.mp among).1
  have isRead := FeatureTest.IsReadFrom.of_ofBlock?
    (fun name spelled named => Name.ne_nil_of_mem (inside.subset named)) found
  have within := Lexeme.textOf_infix inside
  rw [Lexeme.textOf_ofText] at within
  exact isRead.mono within

/--
What holds of every query that is read from a text. It is not negated and marked at
once. Its media type is there, in small letters and not `and`, and where no
qualifier stands in front of it, it is none either. All its tests are read from the text.
-/
structure IsReadFrom (source : List Char) (query : Query) : Prop where
  oneQualifier : ¬ (query.negated = true ∧ query.markedOnly = true)
  typed : query.mediaType ≠ ""
  small : ∀ character ∈ query.mediaType.toList, character.isUpper = false
  noLink : query.mediaType ≠ "and"
  noQualifier : query.negated = false → query.markedOnly = false →
    query.mediaType ≠ "only" ∧ query.mediaType ≠ "not"
  tests : ∀ test ∈ query.tests, test.IsReadFrom source

theorem isReadFrom_ofText (text : List Char) : (ofText text).IsReadFrom text where
  oneQualifier := not_negated_and_markedOnly _
  typed := by
    rcases mediaType_cases text with all | ⟨name, spelled, member, found⟩
    · simp [all]
    · have nonempty := Name.ne_nil_of_mem member
      simpa [found, Text.lower] using nonempty
  small := by
    rcases mediaType_cases text with all | ⟨name, spelled, member, found⟩
    · simp [all]
    · rw [found, String.toList_ofList]
      exact Text.isUpper_of_mem_lower
  noLink := mediaType_ne_and _
  noQualifier := mediaType_ne_qualifier
  tests := fun _ => isReadFrom_of_mem_tests

end Query

namespace QueryList

/--
All queries of a text are read from it, and no value in them holds a comma.
-/
theorem isReadFrom_of_mem {text : String} {query : Query} (member : query ∈ ofString text) :
    query.IsReadFrom text.toList ∧
      ∀ test ∈ query.tests, ∀ value ∈ test.value, ',' ∉ value.toList := by
  rcases List.mem_map.mp member with ⟨part, among, rfl⟩
  have isRead := Query.isReadFrom_ofText part
  have inside := Text.infix_of_mem_splitAtCommas among
  constructor
  · exact { isRead with tests := fun test found => (isRead.tests test found).mono inside }
  · intro test found value isValue comma
    have within := ((isRead.tests test found).value value isValue).2.2
    exact Text.not_mem_of_mem_splitAtCommas among (within.subset comma)

/-- A query with an escape in its media type, a value, and a malformed test left open. -/
theorem isReadFrom_of_mem_escaped :
    let text := "\\61nd,ONLY \\54v and (Min-Width: 1PX ) and (! X"
    let query : Query :=
      ⟨false, true, "tv", [⟨.min, "width", some "1PX", false⟩, .malformed "! X"]⟩
    query ∈ ofString text ∧ query.IsReadFrom text.toList ∧
      ∀ test ∈ query.tests, ∀ value ∈ test.value, ',' ∉ value.toList := by
  intro text query
  have member : query ∈ ofString text := by decide
  exact ⟨member, isReadFrom_of_mem member⟩

end QueryList

end MediaQuery
