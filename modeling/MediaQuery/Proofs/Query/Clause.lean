import Mathlib.Data.List.Forall2
import MediaQuery.Proofs.Lexeme.Word
import MediaQuery.Proofs.Query.Component
import MediaQuery.Proofs.Query.Reader

/-!
# Clauses and their parts

What a query is put together from: a qualifier, a media type and tests, and the
words and brackets that these are written as. The main statement is that a text
whose parts are spelled one after the other, with gaps between them, reads as the
query that is put together from them.
-/

namespace MediaQuery

open Text (Stops Gap)

/-- A piece of a query: a word, or a test in its brackets. -/
inductive Part where
  | word (name : String)
  | test (test : FeatureTest)
  deriving DecidableEq, Repr

namespace Part

/-- The word that a part is, if it is one. -/
def name? : Part → Option String
  | .word name => some name
  | .test _ => none

/-- The test that a part is, if it is one. -/
def test? : Part → Option FeatureTest
  | .word _ => none
  | .test tested => some tested

/-- The parts that tests are written as: each behind an `and`, the first one only if linked. -/
def ofTests : Bool → List FeatureTest → List Part
  | _, [] => []
  | true, tested :: rest => .word "and" :: .test tested :: ofTests true rest
  | false, tested :: rest => .test tested :: ofTests true rest

theorem filterMap_ofTests (linked : Bool) (tests : List FeatureTest) :
    (ofTests linked tests).filterMap test? = tests := by
  induction tests generalizing linked with
  | nil => cases linked <;> rfl
  | cons tested rest ih => cases linked <;> simp [ofTests, List.filterMap_cons, test?, ih]

/-- What holds of tests and of the word between them holds of the parts they are written as. -/
theorem forall_mem_ofTests {Holds : Part → Prop} (link : Holds (.word "and"))
    {tests : List FeatureTest} (each : ∀ tested ∈ tests, Holds (.test tested)) (linked : Bool) :
    ∀ part ∈ ofTests linked tests, Holds part := by
  induction tests generalizing linked with
  | nil => cases linked <;> simp [ofTests]
  | cons tested rest ih =>
      have later := ih (fun other member => each other (List.mem_cons_of_mem _ member)) true
      have first := each tested (by simp)
      cases linked with
      | false => exact List.forall_mem_cons.mpr ⟨first, later⟩
      | true => exact List.forall_mem_cons.mpr ⟨link, List.forall_mem_cons.mpr ⟨first, later⟩⟩

/-- Whether a component is read as a part. -/
structure Shows (part : Part) (component : Component) : Prop where
  name : component.name?.map (fun name => String.ofList (Text.lower name)) = part.name?
  test : component.test? = part.test?

/-- Whether a text reads as a part in front of every text that stops. -/
def Spells (part : Part) (text : List Char) : Prop :=
  ∃ lexemes component, part.Shows component ∧ component.isBlank = false ∧
    Component.ofLexemes lexemes = [component] ∧ Lexeme.nestAll [] lexemes = [] ∧
      ∀ after, Stops after → Lexeme.Reads text lexemes after

theorem Spells.ofText_append {part : Part} {text after : List Char} (spells : part.Spells text)
    (stops : Stops after) :
    ∃ component, part.Shows component ∧
      Component.ofText (text ++ after) = component :: Component.ofText after := by
  rcases spells with ⟨lexemes, component, shown, solid, components, level, reads⟩
  refine ⟨component, shown, ?_⟩
  rw [Component.ofText_append_of_reads (reads after stops) level, components]
  simp [solid]

theorem spells_word {word : List Char} (isWord : Name.IsWord word) {name : String}
    (lowered : String.ofList (Text.lower word) = name) : (Part.word name).Spells word := by
  refine ⟨[⟨.ident word, word⟩], .token ⟨.ident word, word⟩, ⟨?_, ?_⟩, rfl, rfl, rfl,
    fun after stops => isWord.reads stops⟩
  · rw [← lowered]
    rfl
  · rfl

theorem ofText_space {character : Char} (space : Character.isSpace character = true)
    (rest : List Char) : Component.ofText (character :: rest) = Component.ofText rest :=
  Component.ofText_append_of_isBlank (Lexeme.Reads.space space rest) (by simp [Lexeme.isBlank,
    Token.isBlank])

/-- A word in any letter case, a space behind it, comes before what follows. -/
theorem exists_ofText_word {name : String} (isWord : Name.IsWord name.toList) {word : List Char}
    (cased : Text.lower word = name.toList) (rest : List Char) :
    ∃ component, (Part.word name).Shows component ∧
      Component.ofText (word ++ ' ' :: rest) = component :: Component.ofText rest := by
  have spells : (Part.word name).Spells word :=
    spells_word (Name.isWord_of_lower (cased ▸ isWord)) (by rw [cased, String.ofList_toList])
  have stops : Stops (' ' :: rest) := Text.stops_cons.mpr (by decide)
  rcases spells.ofText_append stops with ⟨component, shown, components⟩
  refine ⟨component, shown, ?_⟩
  rw [components, ofText_space (by decide)]

end Part

/--
Parts that are written one after the other, with gaps between them that are not
empty. A gap may also follow the last one.
-/
inductive Joined (Writes : Part → List Char → Prop) : List Part → List Char → Prop
  | nil : Joined Writes [] []
  | last {part : Part} {text gap : List Char} (writes : Writes part text) (isGap : Gap gap) :
      Joined Writes [part] (text ++ gap)
  | cons {part next : Part} {parts : List Part} {text gap rest : List Char}
      (writes : Writes part text) (isGap : Gap gap) (nonempty : gap ≠ [])
      (joined : Joined Writes (next :: parts) rest) :
      Joined Writes (part :: next :: parts) (text ++ (gap ++ rest))

namespace Joined

theorem mono {Writes Spells : Part → List Char → Prop} {parts : List Part} {text : List Char}
    (joined : Joined Writes parts text)
    (step : ∀ part ∈ parts, ∀ text, Writes part text → Spells part text) :
    Joined Spells parts text := by
  induction joined with
  | nil => exact nil
  | last writes isGap => exact last (step _ (by simp) _ writes) isGap
  | cons writes isGap nonempty _ ih =>
      exact cons (step _ (by simp) _ writes) isGap nonempty
        (ih fun part member => step part (List.mem_cons_of_mem _ member))

theorem not_mem {Writes : Part → List Char → Prop} {parts : List Part} {text : List Char}
    (joined : Joined Writes parts text)
    (noComma : ∀ part ∈ parts, ∀ text, Writes part text → ',' ∉ text) : ',' ∉ text := by
  induction joined with
  | nil => simp
  | last writes isGap => simp [noComma _ (by simp) _ writes, isGap.noComma]
  | cons writes isGap _ _ ih =>
      have later := ih fun part member => noComma part (List.mem_cons_of_mem _ member)
      simp [noComma _ (by simp) _ writes, isGap.noComma, later]

/-- Joined parts are read one after the other. -/
theorem ofText_eq {parts : List Part} {text : List Char} (joined : Joined Part.Spells parts text) :
    List.Forall₂ Part.Shows parts (Component.ofText text) := by
  induction joined with
  | nil => exact List.Forall₂.nil
  | @last part text gap spells isGap =>
      rcases spells.ofText_append (List.append_nil gap ▸ isGap.stops Text.stops_nil) with
        ⟨component, shown, components⟩
      rcases isGap.reads with ⟨lexemes, blank, reads⟩
      have nothing := Component.ofText_append_of_isBlank (reads []) blank
      rw [List.append_nil] at nothing
      rw [components, nothing]
      exact List.Forall₂.cons shown List.Forall₂.nil
  | @cons part next parts text gap rest spells isGap nonempty _ ih =>
      rcases spells.ofText_append (isGap.stops_of_ne_nil nonempty rest) with
        ⟨component, shown, components⟩
      rcases isGap.reads with ⟨lexemes, blank, reads⟩
      rw [components, Component.ofText_append_of_isBlank (reads rest) blank]
      exact List.Forall₂.cons shown ih

end Joined

namespace Qualifier

/-- The word that a qualifier is. -/
def name : Qualifier → String
  | .only => "only"
  | .negation => "not"

/-- The qualifier that a word in small letters is. -/
def ofWord? : String → Option Qualifier
  | "only" => some .only
  | "not" => some .negation
  | _ => none

theorem ofWord?_name (qualifier : Qualifier) : ofWord? qualifier.name = some qualifier := by
  cases qualifier <;> rfl

theorem ofName?_of_shows {part : Part} {component : Component} (shown : part.Shows component) :
    component.name?.bind ofName? = part.name?.bind ofWord? := by
  rw [← shown.name, Option.bind_map]
  rfl

end Qualifier

/-- What a query is put together from. -/
structure Clause where
  qualifier : Option Qualifier := none
  mediaType : Option String := none
  tests : List FeatureTest := []
  deriving DecidableEq, Repr

namespace Clause

/-- The words in front of the tests of a clause. -/
def head (clause : Clause) : List Part :=
  (clause.qualifier.map fun qualifier => Part.word qualifier.name).toList ++
    (clause.mediaType.map Part.word).toList

/-- The parts of a clause. A test needs an `and` behind a media type or another test. -/
def parts (clause : Clause) : List Part :=
  clause.head ++ Part.ofTests clause.mediaType.isSome clause.tests

theorem forall_mem_parts {Holds : Part → Prop} {clause : Clause}
    (only : Holds (.word "only")) (negation : Holds (.word "not")) (link : Holds (.word "and"))
    (type : ∀ name ∈ clause.mediaType, Holds (.word name))
    (each : ∀ tested ∈ clause.tests, Holds (.test tested)) : ∀ part ∈ clause.parts, Holds part := by
  rcases clause with ⟨qualifier, mediaType, tests⟩
  intro part member
  rcases List.mem_append.mp member with head | test
  · rcases List.mem_append.mp head with word | typed
    · rcases qualifier with _ | _ | _
      · simp at word
      · have same : part = .word "only" := by simpa [Qualifier.name] using word
        subst same
        exact only
      · have same : part = .word "not" := by simpa [Qualifier.name] using word
        subst same
        exact negation
    · rcases mediaType with _ | name
      · simp at typed
      · have same : part = .word name := by simpa using typed
        subst same
        exact type name rfl
  · exact Part.forall_mem_ofTests link each _ part test

/-- The query that a clause means. -/
def toQuery (clause : Clause) : Query where
  negated := clause.qualifier == some .negation
  markedOnly := clause.qualifier == some .only
  mediaType := clause.mediaType.getD "all"
  tests := clause.tests

/-- Whether the media type of a clause cannot be taken for another word. -/
def HasOwnType (clause : Clause) : Prop :=
  ∀ mediaType ∈ clause.mediaType, mediaType ≠ "and" ∧
    (clause.qualifier = none → mediaType ≠ "only" ∧ mediaType ≠ "not")

theorem filterMap_test?_parts (clause : Clause) :
    clause.parts.filterMap Part.test? = clause.tests := by
  rcases clause with ⟨_ | qualifier, _ | mediaType, tests⟩ <;>
    simp [parts, head, List.filterMap_cons, Part.test?, Part.filterMap_ofTests]

theorem filterMap_test?_of_shows {parts : List Part} {components : List Component}
    (shown : List.Forall₂ Part.Shows parts components) :
    components.filterMap Component.test? = parts.filterMap Part.test? := by
  induction shown with
  | nil => rfl
  | cons first _ ih => rw [List.filterMap_cons, List.filterMap_cons, first.test, ih]

theorem leadingType?_of_shows {mediaType : Option String}
    (ownType : ∀ name ∈ mediaType, name ≠ "and") {tests : List FeatureTest}
    {components : List Component}
    (shown : List.Forall₂ Part.Shows
      ((mediaType.map Part.word).toList ++ Part.ofTests mediaType.isSome tests) components) :
    Query.leadingType? components = mediaType := by
  cases mediaType with
  | some name =>
      rcases List.forall₂_cons_left_iff.mp shown with ⟨component, rest, first, _, rfl⟩
      have other := ownType name rfl
      simp [Query.leadingType?, first.name, Part.name?, other]
  | none =>
      cases tests with
      | nil =>
          have none := List.forall₂_nil_left_iff.mp shown
          subst none
          rfl
      | cons tested tests =>
          rcases List.forall₂_cons_left_iff.mp shown with ⟨component, rest, first, _, rfl⟩
          simp [Query.leadingType?, first.name, Part.name?]

theorem take_of_shows {mediaType : Option String}
    (ownType : ∀ name ∈ mediaType, name ≠ "only" ∧ name ≠ "not")
    {tests : List FeatureTest} {components : List Component}
    (shown : List.Forall₂ Part.Shows
      ((mediaType.map Part.word).toList ++ Part.ofTests mediaType.isSome tests) components) :
    Qualifier.take components = (none, components) := by
  cases mediaType with
  | some name =>
      rcases List.forall₂_cons_left_iff.mp shown with ⟨component, rest, first, _, rfl⟩
      have other := ownType name rfl
      have nothing : Qualifier.ofWord? name = none := by
        unfold Qualifier.ofWord?
        split <;> simp_all
      rw [Qualifier.take_cons, Qualifier.ofName?_of_shows first]
      simp [Part.name?, nothing]
  | none =>
      cases tests with
      | nil =>
          have none := List.forall₂_nil_left_iff.mp shown
          subst none
          rfl
      | cons tested tests =>
          rcases List.forall₂_cons_left_iff.mp shown with ⟨component, rest, first, _, rfl⟩
          rw [Qualifier.take_cons, Qualifier.ofName?_of_shows first]
          rfl

/-- Components that show the parts of a clause make up its query. -/
theorem ofComponents_eq {clause : Clause} (ownType : clause.HasOwnType)
    {components : List Component} (shown : List.Forall₂ Part.Shows clause.parts components) :
    Query.ofComponents components = clause.toQuery := by
  have tests := filterMap_test?_of_shows shown
  rw [filterMap_test?_parts] at tests
  rcases clause with ⟨qualifier, mediaType, written⟩
  rw [Query.ofComponents_eq, tests]
  cases qualifier with
  | none =>
      have taken := take_of_shows (fun name member => (ownType name member).2 rfl) shown
      have type := leadingType?_of_shows (fun name member => (ownType name member).1) shown
      rw [taken, type]
      rfl
  | some qualifier =>
      rcases List.forall₂_cons_left_iff.mp shown with ⟨component, rest, first, later, rfl⟩
      have type := leadingType?_of_shows (fun name member => (ownType name member).1) later
      rw [Qualifier.take_cons, Qualifier.ofName?_of_shows first]
      simp [Part.name?, Qualifier.ofWord?_name, type, toQuery]

/-- A text that spells the parts of a clause, behind a gap, reads as its query. -/
theorem ofText_eq {clause : Clause} (ownType : clause.HasOwnType) {gap text : List Char}
    (isGap : Gap gap) (joined : Joined Part.Spells clause.parts text) :
    Query.ofText (gap ++ text) = clause.toQuery := by
  rcases isGap.reads with ⟨lexemes, blank, reads⟩
  rw [Query.ofText, Component.ofText_append_of_isBlank (reads text) blank]
  exact ofComponents_eq ownType joined.ofText_eq

end Clause

end MediaQuery
