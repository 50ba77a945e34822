import MediaQuery.Proofs.Query.Comment
import MediaQuery.Proofs.Query.Connective

/-!
# Stray tokens

What a token that is no part of a query does to the query that it is put into. It never touches the
tests. The qualifier and the media type, though, are only looked for in front of it, so a query
keeps them if what stands in front of the token has them already.
-/

namespace MediaQuery

namespace Lexeme

/-- A text that closes all it opens and reads the same at the end and in front of white space. -/
structure SetOff (text : List Char) (lexemes : List Lexeme) : Prop where
  reads : ∀ after, (∀ character ∈ after.head?, Character.isSpace character = true) →
    Reads text lexemes after
  level : nestAll [] lexemes = []

namespace SetOff

theorem of_isClosed {text : List Char} (closed : Text.isClosed text = true) :
    SetOff text (ofText text) where
  reads := by
    intro after spaced
    have stops : Text.Stops after := by
      rcases after with _ | ⟨character, rest⟩
      · exact Text.stops_nil
      · exact Text.stops_cons.mpr (Character.isJoining_of_isSpace (spaced character rfl))
    apply (Reads.self text).congr (Text.plain_of_isClosed closed) Token.apart_nil stops
    intro lexeme member
    exact Text.isClosed_of_mem closed member
  level := Text.nestAll_of_isClosed closed

theorem ofText_eq {text : List Char} {lexemes : List Lexeme} (setOff : SetOff text lexemes) :
    Component.ofText text =
      (Component.ofLexemes lexemes).filter fun component => !component.isBlank := by
  rw [Component.ofText, (setOff.reads [] (by simp)).ofText_eq]

/-- What is set off is read on its own in front of every text that leaves its lexemes alone. -/
theorem ofText_append {text after : List Char} {lexemes : List Lexeme}
    (setOff : SetOff text lexemes) (reads : Reads text lexemes after) :
    Component.ofText (text ++ after) = Component.ofText text ++ Component.ofText after := by
  rw [Component.ofText_append_of_reads reads setOff.level, setOff.ofText_eq]

end SetOff

end Lexeme

/-- A text that is one token or one block of a query, but no name and no block in round brackets. -/
structure Text.IsStray (text : List Char) (component : Component) : Prop where
  components : Component.ofText text = [component]
  setOff : Lexeme.SetOff text (Lexeme.ofText text)
  nameless : component.name? = none
  testless : component.content? = none

/--
Where a stray piece may come into a text: between two components of it, with white space around it
that may be left out where nothing else is.
-/
structure Text.IsPlace (left gap gapBehind right : List Char) : Prop where
  between : ∃ lexemes, Lexeme.SetOff left lexemes ∧ Lexeme.Reads left lexemes right
  white : ∀ character ∈ gap ++ gapBehind, Character.isSpace character = true
  setOff : left = [] ∨ gap ≠ []
  setOffBehind : ∀ character ∈ (gapBehind ++ right).head?, Character.isSpace character = true

namespace Text.IsPlace

variable {left gap gapBehind right : List Char}

theorem of_isClosed {left gap gapBehind right : List Char}
    (fits : (Text.isClosed left = true ∧
        Lexeme.ofText (left ++ right) = Lexeme.ofText left ++ Lexeme.ofText right) ∧
      (gap ++ gapBehind).all Character.isSpace = true ∧
      (left = [] ∨ gap ≠ []) ∧
      (gapBehind ++ right).head?.all Character.isSpace = true) :
    IsPlace left gap gapBehind right where
  between := ⟨_, Lexeme.SetOff.of_isClosed fits.1.1, fits.1.2⟩
  white := List.all_eq_true.mp fits.2.1
  setOff := fits.2.2.1
  setOffBehind := (Option.all_eq_true _ _).mp fits.2.2.2

theorem ofText_white {gap : List Char}
    (white : ∀ character ∈ gap, Character.isSpace character = true) (after : List Char) :
    Component.ofText (gap ++ after) = Component.ofText after := by
  rcases (Text.Gap.of_spaces white).reads with ⟨lexemes, blank, reads⟩
  exact Component.ofText_append_of_isBlank (reads after) blank

/-- What is in front of a place stays what it is when something comes into the place. -/
theorem ofText_front (place : IsPlace left gap gapBehind right) (after : List Char) :
    Component.ofText (left ++ (gap ++ after)) =
      Component.ofText left ++ Component.ofText after := by
  have white : ∀ character ∈ gap, Character.isSpace character = true :=
    fun character member => place.white character (List.mem_append_left _ member)
  rw [← ofText_white white after]
  rcases place.between with ⟨lexemes, setOff, _⟩
  rcases place.setOff with rfl | nonempty
  · rfl
  · apply setOff.ofText_append
    apply setOff.reads
    intro character first
    rw [List.head?_append_of_ne_nil _ nonempty] at first
    exact white character (List.mem_of_mem_head? first)

theorem ofText_behind (place : IsPlace left gap gapBehind right) {stray : List Char}
    (setOff : Lexeme.SetOff stray (Lexeme.ofText stray)) :
    Component.ofText (stray ++ (gapBehind ++ right)) =
      Component.ofText stray ++ Component.ofText right := by
  have white : ∀ character ∈ gapBehind, Character.isSpace character = true :=
    fun character member => place.white character (List.mem_append_right _ member)
  rw [← ofText_white white right]
  exact setOff.ofText_append (setOff.reads _ place.setOffBehind)

theorem ofText_between (place : IsPlace left gap gapBehind right) :
    Component.ofText (left ++ right) = Component.ofText left ++ Component.ofText right := by
  rcases place.between with ⟨lexemes, setOff, reads⟩
  exact setOff.ofText_append reads

end Text.IsPlace

namespace Query

/-- Whether two queries start in the same way: with the same qualifier and media type. -/
structure SameHead (query other : Query) : Prop where
  negated : query.negated = other.negated
  markedOnly : query.markedOnly = other.markedOnly
  mediaType : query.mediaType = other.mediaType

/-- Whether what is in front already has all of the head that it can have with what follows. -/
def HeadPassed (left right : List Component) : Prop :=
  (Qualifier.take left).2 ≠ [] ∨
    leadingType? right = none ∧
      ∀ component ∈ right.head?, component.name?.bind Qualifier.ofName? = none

theorem sameHead_of_headPassed {left right : List Component} (passed : HeadPassed left right) :
    (ofComponents left).SameHead (ofComponents (left ++ right)) := by
  have kept : Qualifier.take (left ++ right) =
        ((Qualifier.take left).1, (Qualifier.take left).2 ++ right) ∧
      leadingType? ((Qualifier.take left).2 ++ right) =
        leadingType? (Qualifier.take left).2 := by
    rcases passed with more | ⟨untyped, unqualified⟩
    · rcases left with _ | ⟨component, rest⟩
      · exact absurd rfl more
      · constructor
        · rw [List.cons_append, Qualifier.take_cons, Qualifier.take_cons]
          split <;> rfl
        · rcases List.exists_cons_of_ne_nil more with ⟨first, others, ahead⟩
          rw [ahead]
          rfl
    · exact ⟨Qualifier.take_append unqualified, leadingType?_append untyped⟩
  rw [ofComponents_eq, ofComponents_eq, kept.1]
  exact ⟨rfl, rfl, by rw [kept.2]⟩

theorem eq_iff_sameHead {query other : Query} :
    { query with tests := other.tests } = other ↔ query.SameHead other := by
  constructor
  · intro same
    rw [← same]
    exact ⟨rfl, rfl, rfl⟩
  · rintro ⟨negated, markedOnly, mediaType⟩
    cases other
    simp_all

/--
A stray token leaves the tests of a query as they are, and the qualifier and the media type of the
query are those of the text in front of the token. So it has no effect exactly if that text has
the same ones as the whole, as it does if more than a qualifier is in front of the token, or if no
qualifier and no media type is behind it.
-/
theorem ofText_stray {left gap stray gapBehind right : List Char} {component : Component}
    (place : Text.IsPlace left gap gapBehind right) (isStray : Text.IsStray stray component) :
    let whole := ofText (left ++ right)
    let found := ofText (left ++ (gap ++ (stray ++ (gapBehind ++ right))))
    found = { ofText left with tests := whole.tests } ∧
      (found = whole ↔ (ofText left).SameHead whole) ∧
      (HeadPassed (Component.ofText left) (Component.ofText right) → found = whole) := by
  have parts : Component.ofText (left ++ (gap ++ (stray ++ (gapBehind ++ right)))) =
      Component.ofText left ++ component :: Component.ofText right := by
    rw [place.ofText_front, place.ofText_behind isStray.setOff, isStray.components]
    rfl
  have testless : component.test? = none := by rw [Component.test?, isStray.testless]; rfl
  have tests : (ofText (left ++ right)).tests =
      (Component.ofText left ++ component :: Component.ofText right).filterMap
        Component.test? := by
    rw [ofText, place.ofText_between, ofComponents_eq, List.filterMap_append,
      List.filterMap_append, List.filterMap_cons, testless]
  have found : ofText (left ++ (gap ++ (stray ++ (gapBehind ++ right)))) =
      { ofText left with tests := (ofText (left ++ right)).tests } := by
    rw [tests, ofText, parts]
    exact ofComponents_of_nameless isStray.nameless
  refine ⟨found, ?_, fun passed => ?_⟩
  · rw [found]
    exact eq_iff_sameHead
  · rw [found, eq_iff_sameHead, ofText, ofText, place.ofText_between]
    exact sameHead_of_headPassed passed

/-- A dimension behind the media type of a query, which is as it was. -/
theorem ofText_stray_dimension :
    ofText "not screen 5px and (color)".toList = ofText "not screen and (color)".toList := by
  have place : Text.IsPlace "not screen".toList [' '] [] " and (color)".toList :=
    .of_isClosed (by decide +kernel)
  have isStray : Text.IsStray "5px".toList
      (.token ⟨.dimension ⟨false, [5], [], none⟩ "px".toList, "5px".toList⟩) :=
    ⟨by decide +kernel, Lexeme.SetOff.of_isClosed (by decide +kernel), rfl, rfl⟩
  exact (ofText_stray place isStray).2.2 (Or.inl (by decide +kernel))

/-- Whether a stray piece that comes into a place of a query changes the query. -/
def ShowsStray (left gap stray gapBehind right : String) : Prop :=
  ∃ component, Text.IsPlace left.toList gap.toList gapBehind.toList right.toList ∧
    Text.IsStray stray.toList component ∧
    ofString (left ++ gap ++ stray ++ gapBehind ++ right) ≠ ofString (left ++ right)

/--
A stray token does show in front of the words that a query starts with: a number hides the media
type behind it, be it the first word or behind a `not`, and it hides a `not`.
-/
theorem showsStray_head :
    ShowsStray "" "" "5" " " "screen" ∧
      ShowsStray "not" " " "5" "" " screen" ∧
      ShowsStray "" "" "5" " " "not screen" := by
  have number : Text.IsStray "5".toList (.token ⟨.number ⟨false, [5], [], none⟩, ['5']⟩) :=
    ⟨by decide +kernel, Lexeme.SetOff.of_isClosed (by decide +kernel), rfl, rfl⟩
  refine ⟨⟨_, ?_, number, ?_⟩, ⟨_, ?_, number, ?_⟩, ⟨_, ?_, number, ?_⟩⟩
  · exact .of_isClosed (by decide +kernel)
  · decide +kernel
  · exact .of_isClosed (by decide +kernel)
  · decide +kernel
  · exact .of_isClosed (by decide +kernel)
  · decide +kernel

end Query

end MediaQuery
