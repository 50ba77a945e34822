import MediaQuery.Query.Reader

/-!
# Reading components

How the parts of a query come from its components: the qualifier and the media
type from those in front, the tests from all of them.
-/

namespace MediaQuery

namespace Component

/-- The test that a component holds, if it holds one. -/
def test? (component : Component) : Option FeatureTest :=
  component.content?.bind FeatureTest.ofBlock?

@[simp]
theorem test?_token (lexeme : Lexeme) : (token lexeme).test? = none :=
  rfl

theorem content?_block (opener : Lexeme) (content : List Lexeme) :
    (block opener content).content? =
      if opener.token = .opening .round then some content else none := by
  rcases opener with ⟨token, text⟩
  cases token with
  | opening bracket => cases bracket <;> rfl
  | _ => rfl

theorem content?_of_name? {component : Component} {name : List Char}
    (isName : component.name? = some name) : component.content? = none := by
  unfold name? at isName
  split at isName
  · rfl
  · cases isName

end Component

namespace Qualifier

theorem take_cons (component : Component) (rest : List Component) :
    take (component :: rest) =
      match component.name?.bind ofName? with
      | some qualifier => (some qualifier, rest)
      | none => (none, component :: rest) :=
  rfl

/-- A qualifier is taken from the front, or nothing is and none stands there. -/
theorem take_cases (components : List Component) :
    (∃ qualifier component rest, components = component :: rest ∧
        take components = (some qualifier, rest)) ∨
      take components = (none, components) ∧
        ∀ component ∈ components.head?, component.name?.bind ofName? = none := by
  match components with
  | [] => exact Or.inr ⟨rfl, by simp⟩
  | component :: rest =>
      rw [take_cons]
      rcases found : component.name?.bind ofName? with _ | qualifier
      · right
        refine ⟨rfl, fun front member => ?_⟩
        have same : component = front := by simpa using member
        subst same
        exact found
      · exact Or.inl ⟨qualifier, component, rest, rfl, rfl⟩

theorem take_suffix (components : List Component) : (take components).2 <:+ components := by
  rcases take_cases components with ⟨qualifier, component, rest, rfl, taken⟩ | ⟨taken, _⟩
  · simpa only [taken] using List.suffix_cons component rest
  · simp [taken]

/-- The qualifier is no block. -/
theorem filterMap_content?_take (components : List Component) :
    (take components).2.filterMap Component.content? =
      components.filterMap Component.content? := by
  rcases components with _ | ⟨component, rest⟩
  · rfl
  · rw [take_cons]
    rcases means : component.name?.bind ofName? with _ | qualifier
    · rfl
    · rcases Option.bind_eq_some_iff.mp means with ⟨name, isName, _⟩
      rw [List.filterMap_cons, Component.content?_of_name? isName]

theorem filterMap_take (components : List Component) :
    (take components).2.filterMap Component.test? = components.filterMap Component.test? := by
  have same := congrArg (List.filterMap FeatureTest.ofBlock?) (filterMap_content?_take components)
  rwa [List.filterMap_filterMap, List.filterMap_filterMap] at same

end Qualifier

namespace Query

theorem ofComponents_eq (components : List Component) :
    ofComponents components =
      { negated := (Qualifier.take components).1 == some .negation
        markedOnly := (Qualifier.take components).1 == some .only
        mediaType := (leadingType? (Qualifier.take components).2).getD "all"
        tests := components.filterMap Component.test? } := by
  rw [← Qualifier.filterMap_take]
  rfl

/-- Every test of a text is that of a block in round brackets. -/
theorem exists_block_of_mem_tests {text : List Char} {test : FeatureTest}
    (member : test ∈ (ofText text).tests) :
    ∃ opener content, .block opener content ∈ Component.ofText text ∧
      opener.token = .opening .round ∧ FeatureTest.ofBlock? content = some test := by
  rw [ofText, ofComponents_eq] at member
  rcases List.mem_filterMap.mp member with ⟨lexeme | ⟨opener, content⟩, among, found⟩
  · simp at found
  · rw [Component.test?, Component.content?_block] at found
    split at found
    · rename_i round
      exact ⟨opener, content, among, round, found⟩
    · simp at found

theorem not_negated_and_markedOnly (components : List Component) :
    ¬ ((ofComponents components).negated = true ∧
      (ofComponents components).markedOnly = true) := by
  rw [ofComponents_eq]
  rintro ⟨negated, markedOnly⟩
  have negation := beq_iff_eq.mp negated
  rw [beq_iff_eq.mp markedOnly] at negation
  exact absurd negation (by decide)

/-- Components of a query with no qualifier are taken as they are. -/
theorem take_of_ofComponents {components : List Component}
    (positive : (ofComponents components).negated = false)
    (unmarked : (ofComponents components).markedOnly = false) :
    Qualifier.take components = (none, components) := by
  rcases Qualifier.take_cases components with ⟨qualifier, _, rest, _, taken⟩ | ⟨taken, _⟩
  · rw [ofComponents_eq, taken] at positive unmarked
    cases qualifier with
    | only => simp at unmarked
    | negation => simp at positive
  · exact taken

/-- The media type that is read is that of a name in front, or the one that stands for none. -/
theorem leadingType?_cases (components : List Component) :
    (leadingType? components).getD "all" = "all" ∨
      ∃ component ∈ components.head?, ∃ name, component.name? = some name ∧
        String.ofList (Text.lower name) ≠ "and" ∧
          (leadingType? components).getD "all" = String.ofList (Text.lower name) := by
  rcases found : leadingType? components with _ | mediaType
  · exact Or.inl rfl
  · right
    match components with
    | [] => simp [leadingType?] at found
    | component :: rest =>
        rcases Option.filter_eq_some_iff.mp found with ⟨named, other⟩
        rcases Option.map_eq_some_iff.mp named with ⟨name, isName, rfl⟩
        exact ⟨component, rfl, name, isName, by simpa using other, rfl⟩

theorem mediaType_ne_and (components : List Component) :
    (ofComponents components).mediaType ≠ "and" := by
  rw [ofComponents_eq]
  rcases leadingType?_cases (Qualifier.take components).2 with all | ⟨_, _, _, _, noAnd, found⟩
  · simp [all]
  · simpa [found] using noAnd

/-- Without a qualifier, the media type that is read is no word that would be one. -/
theorem mediaType_ne_qualifier {components : List Component}
    (positive : (ofComponents components).negated = false)
    (unmarked : (ofComponents components).markedOnly = false) :
    (ofComponents components).mediaType ≠ "only" ∧ (ofComponents components).mediaType ≠ "not" := by
  have taken := take_of_ofComponents positive unmarked
  rcases Qualifier.take_cases components with ⟨_, _, _, _, other⟩ | ⟨_, unqualified⟩
  · simp [taken] at other
  · rw [ofComponents_eq, taken]
    rcases leadingType?_cases components with all | ⟨front, first, name, isName, _, found⟩
    · simp [all]
    · have nothing := unqualified front first
      rw [isName, Option.bind_some] at nothing
      simp only [found]
      constructor <;>
        · intro word
          simp [Qualifier.ofName?, word] at nothing

end Query

end MediaQuery
