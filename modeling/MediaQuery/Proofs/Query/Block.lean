import MediaQuery.Proofs.Query.Clause
import MediaQuery.Proofs.Text.Trim

/-!
# What brackets hold

The texts that can stand between a pair of round brackets, and what test comes of
the brackets: one of a feature for a name with or without a value, and a malformed
one for a body that is no feature test.
-/

namespace MediaQuery

open Text (Stops Gap)
open Token (Apart)

/--
A text that stands between round brackets as it is: it has no end that the
brackets could miss, and nothing around it that reading takes away.
-/
structure Body (text : List Char) : Prop where
  plain : '\\' ∉ text
  noComma : ',' ∉ text
  nonempty : text ≠ []
  trimmed : Text.IsTrimmed text
  solid : ∀ lexeme ∈ (Lexeme.ofText text).head?, lexeme.isBlank = false
  closed : ∀ lexeme ∈ Lexeme.ofText text, lexeme.isClosed = true
  fills : Lexeme.Fills .round (Lexeme.ofText text)

namespace Body

theorem reads {text after : List Char} (body : Body text) (apart : Apart after) :
    Lexeme.Reads text (Lexeme.ofText text) after :=
  (Lexeme.Reads.self text).congr body.plain Token.apart_nil apart.stops body.closed

theorem skipBlank_append {text : List Char} (body : Body text) (rest : List Lexeme) :
    Lexeme.skipBlank (Lexeme.ofText text ++ rest) = Lexeme.ofText text ++ rest := by
  rcases lexemes : Lexeme.ofText text with _ | ⟨first, others⟩
  · exact absurd (Lexeme.ofText_eq_nil_iff.mp lexemes) body.nonempty
  · have solid := body.solid first (by simp [lexemes])
    simp [Lexeme.skipBlank, solid]

theorem lower {text : List Char} (body : Body text) : Body (Text.lower text) where
  plain := by
    rw [Text.mem_lower_iff (by decide)]
    exact body.plain
  noComma := by
    rw [Text.mem_lower_iff (by decide)]
    exact body.noComma
  nonempty := by simpa [Text.lower] using body.nonempty
  trimmed := body.trimmed.lower
  solid := by
    intro lexeme member
    have lowered : lexeme.lower ∈ ((Lexeme.ofText (Text.lower text)).map Lexeme.lower).head? := by
      rw [List.head?_map]
      exact Option.mem_map_of_mem _ member
    rw [Lexeme.map_lower_ofText, List.head?_map] at lowered
    rcases Option.map_eq_some_iff.mp lowered with ⟨original, front, same⟩
    have solid := body.solid original front
    have kind : ∀ lexeme : Lexeme, lexeme.lower.isBlank = lexeme.isBlank := fun lexeme =>
      Token.isBlank_lower lexeme.token
    rw [← kind, ← same, kind]
    exact solid
  closed := fun lexeme member => Lexeme.isClosed_of_mem_ofText_lower body.closed member
  fills := body.fills.lower

end Body

namespace Text

theorem apart_of_spaces {spaces : List Char}
    (white : ∀ character ∈ spaces, Character.isSpace character = true) : Apart spaces where
  stops := by
    have stops := (Gap.of_spaces white).stops stops_nil
    rwa [List.append_nil] at stops
  unquoted := by
    have nothing : spaces.dropWhile Character.isSpace = [] := by simpa using white
    rw [Token.startsQuoted, nothing]

/-- A closing bracket stays apart from what it encloses, also behind spaces. -/
theorem apart_closing {spaces : List Char}
    (white : ∀ character ∈ spaces, Character.isSpace character = true) (after : List Char) :
    Apart (spaces ++ ')' :: after) where
  stops := (Gap.of_spaces white).stops (stops_cons.mpr (by decide))
  unquoted := by
    rw [Token.startsQuoted, List.dropWhile_append_of_pos white]
    rfl

end Text

namespace FeatureTest

/-- The value behind a colon is a body, without the blanks around it. -/
theorem valueOf_eq {value : List Char} (body : Body value) {blanks spaces : List Lexeme}
    (blank : ∀ lexeme ∈ blanks, lexeme.isBlank = true)
    (white : ∀ character ∈ Lexeme.textOf spaces, Character.isSpace character = true) :
    valueOf (blanks ++ (Lexeme.ofText value ++ spaces)) = some (String.ofList value) := by
  have trimmed : Text.trim (value ++ Lexeme.textOf spaces) = value :=
    Text.trim_append body.nonempty body.trimmed fun character member =>
      Character.isWhiteSpace_of_isSpace (white character member)
  rw [valueOf, Lexeme.skipBlank_append blank, body.skipBlank_append, Lexeme.textOf_append,
    Lexeme.textOf_ofText, trimmed]
  rcases List.exists_cons_of_ne_nil body.nonempty with ⟨first, rest, rfl⟩
  rfl

theorem ofBlock?_name {name spelled : List Char} {lead tail : List Lexeme}
    (leadBlank : ∀ lexeme ∈ lead, lexeme.isBlank = true)
    (tailBlank : ∀ lexeme ∈ tail, lexeme.isBlank = true) :
    ofBlock? (lead ++ ⟨.ident name, spelled⟩ :: tail) =
      some (ofWritten (String.ofList (Text.lower name)) none) := by
  rw [ofBlock?, Lexeme.skipBlank_append leadBlank, Lexeme.skipBlank_cons rfl, ofLexemes?,
    Lexeme.skipBlank_of_isBlank tailBlank]

/-- Brackets that hold a name, a colon and a value compare a feature with the value. -/
theorem ofBlock?_value {name spelled colon value : List Char} {lead gap blanks spaces : List Lexeme}
    (leadBlank : ∀ lexeme ∈ lead, lexeme.isBlank = true)
    (gapBlank : ∀ lexeme ∈ gap, lexeme.isBlank = true)
    (blank : ∀ lexeme ∈ blanks, lexeme.isBlank = true) (body : Body value)
    (white : ∀ character ∈ Lexeme.textOf spaces, Character.isSpace character = true) :
    ofBlock? (lead ++ ⟨.ident name, spelled⟩ :: (gap ++ ⟨.colon, colon⟩ ::
        (blanks ++ (Lexeme.ofText value ++ spaces)))) =
      some (ofWritten (String.ofList (Text.lower name)) (some (String.ofList value))) := by
  rw [ofBlock?, Lexeme.skipBlank_append leadBlank, Lexeme.skipBlank_cons rfl, ofLexemes?,
    Lexeme.skipBlank_append gapBlank, Lexeme.skipBlank_cons rfl]
  simp only [valueOf_eq body blank white]

/-- Brackets that hold a body other than a feature test make a malformed test of it. -/
theorem ofBlock?_malformed {text : List Char} (body : Body text)
    (other : ofLexemes? (Lexeme.ofText text) = none) :
    ofBlock? (Lexeme.ofText text) = some (malformed (String.ofList text)) := by
  have whole := body.skipBlank_append []
  have trimmed : Text.trim text = text := by
    have trimmed := @Text.trim_append text [] body.nonempty body.trimmed (by simp)
    simpa using trimmed
  rw [List.append_nil] at whole
  rw [ofBlock?, whole, other, Lexeme.textOf_ofText, trimmed]
  rcases List.exists_cons_of_ne_nil body.nonempty with ⟨first, rest, rfl⟩
  rfl

/-- A test of a feature that is found by the name it is written with. -/
structure IsNamed (test : FeatureTest) : Prop where
  wellFormed : test.isMalformed = false
  split : Bound.split test.writtenName = (test.bound, test.name)
  isWord : Name.IsWord test.writtenName.toList

theorem IsNamed.ofWritten_eq {test : FeatureTest} (named : test.IsNamed) {name : List Char}
    (cased : Text.lower name = test.writtenName.toList) :
    ofWritten (String.ofList (Text.lower name)) test.value = test := by
  rcases test with ⟨bound, feature, value, isMalformed⟩
  have same : isMalformed = false := named.wellFormed
  subst same
  have split := named.split
  rw [cased, String.ofList_toList, ofWritten, split]

end FeatureTest

namespace Part

/-- Brackets around what is read as a test spell the test. -/
theorem spells_test {tested : FeatureTest} {inner : List Char} {content : List Lexeme}
    (fills : Lexeme.Fills .round content) (block : FeatureTest.ofBlock? content = some tested)
    (reads : ∀ after, Lexeme.Reads inner content (')' :: after)) :
    (Part.test tested).Spells ('(' :: (inner ++ [')'])) := by
  refine ⟨⟨.opening .round, ['(']⟩ :: (content ++ [⟨.closing .round, [')']⟩]),
    .block ⟨.opening .round, ['(']⟩ content, ⟨rfl, block⟩, rfl, ?_, ?_, ?_⟩
  · exact @Component.ofLexemes_closedBlock ⟨.opening .round, ['(']⟩ _ rfl _ fills [')'] []
  · have opened : Token.nest [] (.opening .round) = [.round] := rfl
    rw [Lexeme.nestAll_cons, opened, Lexeme.nestAll_append, fills.level]
    rfl
  · intro after _
    have opening := Lexeme.Reads.opening (inner ++ [')'] ++ after)
    have closing := Lexeme.Reads.closing after
    exact opening.append ((reads after).append closing)

variable {tested : FeatureTest} {name lead tail blanks spaces value : List Char}

theorem fills_of_isBlank {lexemes : List Lexeme}
    (blank : ∀ lexeme ∈ lexemes, lexeme.isBlank = true) : Lexeme.Fills .round lexemes :=
  Lexeme.Fills.of_forall fun lexeme member => Token.nest_of_isBlank (blank lexeme member) _

/-- A name in brackets, gaps around it, is a test of the feature. -/
theorem spells_name (named : tested.IsNamed) (noValue : tested.value = none) (leadGap : Gap lead)
    (cased : Text.lower name = tested.writtenName.toList) (tailGap : Gap tail) :
    (Part.test tested).Spells ('(' :: (lead ++ (name ++ tail) ++ [')'])) := by
  have isWord : Name.IsWord name := Name.isWord_of_lower (cased ▸ named.isWord)
  rcases leadGap.reads with ⟨before, beforeBlank, readsBefore⟩
  rcases tailGap.reads with ⟨behind, behindBlank, readsBehind⟩
  have nameFills : Lexeme.Fills .round [⟨.ident name, name⟩] := Lexeme.Fills.singleton rfl
  have fills := (fills_of_isBlank beforeBlank).append
    (nameFills.append (fills_of_isBlank behindBlank))
  apply spells_test fills
  · rw [List.singleton_append, FeatureTest.ofBlock?_name beforeBlank behindBlank, ← noValue,
      named.ofWritten_eq cased]
  · intro after
    have stops : Stops (tail ++ ')' :: after) := tailGap.stops (Text.stops_cons.mpr (by decide))
    exact (readsBefore _).append ((isWord.reads stops).append (readsBehind _))

/-- A name, a colon and a value in brackets, gaps around them, compare the feature. -/
theorem spells_value (named : tested.IsNamed) (hasValue : tested.value = some (String.ofList value))
    (body : Body value) (leadGap : Gap lead)
    (cased : Text.lower name = tested.writtenName.toList) (tailGap : Gap tail)
    (valueGap : Gap blanks) (white : ∀ character ∈ spaces, Character.isSpace character = true) :
    (Part.test tested).Spells
      ('(' :: (lead ++ (name ++ (tail ++ ([':'] ++ (blanks ++ (value ++ spaces))))) ++ [')'])) := by
  have isWord : Name.IsWord name := Name.isWord_of_lower (cased ▸ named.isWord)
  rcases leadGap.reads with ⟨before, beforeBlank, readsBefore⟩
  rcases tailGap.reads with ⟨behind, behindBlank, readsBehind⟩
  rcases valueGap.reads with ⟨between, betweenBlank, readsBetween⟩
  have readsSpaces := Lexeme.Reads.spaces white
  have spacesBlank : ∀ lexeme ∈ spaces.map fun character => (⟨.space, [character]⟩ : Lexeme),
      lexeme.isBlank = true := by
    intro lexeme member
    rcases List.mem_map.mp member with ⟨character, _, rfl⟩
    rfl
  have nameFills : Lexeme.Fills .round [⟨.ident name, name⟩] := Lexeme.Fills.singleton rfl
  have colonFills : Lexeme.Fills .round [⟨.colon, [':']⟩] := Lexeme.Fills.singleton rfl
  have fills := (fills_of_isBlank beforeBlank).append (nameFills.append
    ((fills_of_isBlank behindBlank).append (colonFills.append
      ((fills_of_isBlank betweenBlank).append (body.fills.append (fills_of_isBlank spacesBlank))))))
  apply spells_test fills
  · have spelled := (readsSpaces []).textOf_eq
    have block := @FeatureTest.ofBlock?_value name name [':'] _ _ _ _ _ beforeBlank behindBlank
      betweenBlank body (spelled.symm ▸ white)
    rw [← hasValue, named.ofWritten_eq cased] at block
    exact block
  · intro after
    have readsValue := (body.reads (Text.apart_closing white after)).append (readsSpaces _)
    have readsRest := (readsBehind _).append
      ((Lexeme.Reads.colon _).append ((readsBetween _).append readsValue))
    have stops : Stops (tail ++ ([':'] ++ (blanks ++ (value ++ spaces))) ++ ')' :: after) := by
      rw [List.append_assoc]
      exact tailGap.stops (Text.stops_cons.mpr (by decide))
    exact (readsBefore _).append ((isWord.reads stops).append readsRest)

end Part

end MediaQuery
