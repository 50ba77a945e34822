import MediaQuery.Proofs.Feature.Case
import MediaQuery.Proofs.Query.Enclosed

/-!
# What closed queries are read as

Every query that is read from a text that closes all it opens can be written so
that it reads as itself again: its media type is a word, and its tests hold words
and bodies.
-/

namespace MediaQuery

namespace FeatureTest

/-- A test that reads as itself where it is written. -/
inductive Printable : FeatureTest → Prop
  | named {test : FeatureTest} (named : test.IsNamed)
      (small : Text.lower test.writtenName.toList = test.writtenName.toList)
      (value : ∀ value ∈ test.value, Body value.toList) : Printable test
  | unnamed {text : List Char} (body : Body text) (small : Text.lower text = text)
      (other : ofLexemes? (Lexeme.ofText text) = none) : Printable (malformed (String.ofList text))

/-- Whether what follows a name makes a feature test with it: nothing, or a colon. -/
def endsName (lexemes : List Lexeme) : Bool :=
  match Lexeme.skipBlank lexemes with
  | [] => true
  | lexeme :: _ => decide (lexeme.token = .colon)

theorem isSome_ofLexemes?_ident (name spelled : List Char) (rest : List Lexeme) :
    (ofLexemes? (⟨.ident name, spelled⟩ :: rest)).isSome = endsName rest := by
  simp only [ofLexemes?, endsName]
  rcases Lexeme.skipBlank rest with _ | ⟨⟨token, text⟩, behind⟩
  · rfl
  · cases token <;> rfl

theorem isSome_ofLexemes?_other {lexemes : List Lexeme}
    (other : ∀ lexeme ∈ lexemes.head?, ∀ name, lexeme.token ≠ .ident name) :
    (ofLexemes? lexemes).isSome = false := by
  unfold ofLexemes?
  split
  · exact absurd rfl (other _ rfl _)
  · rfl

theorem endsName_append {lexemes blanks : List Lexeme}
    (blank : ∀ lexeme ∈ blanks, lexeme.isBlank = true) :
    endsName (lexemes ++ blanks) = endsName lexemes := by
  have nothing := Lexeme.skipBlank_of_isBlank blank
  unfold endsName Lexeme.skipBlank at *
  rw [List.dropWhile_append]
  rcases lexemes.dropWhile Lexeme.isBlank with _ | ⟨first, behind⟩
  · simp [nothing]
  · rfl

/-- Whether lexemes are a feature test does not depend on blanks behind them. -/
theorem isSome_ofLexemes?_append {lexemes blanks : List Lexeme} (nonempty : lexemes ≠ [])
    (blank : ∀ lexeme ∈ blanks, lexeme.isBlank = true) :
    (ofLexemes? (lexemes ++ blanks)).isSome = (ofLexemes? lexemes).isSome := by
  rcases List.exists_cons_of_ne_nil nonempty with ⟨⟨token, text⟩, rest, rfl⟩
  by_cases ident : ∃ name, token = .ident name
  · rcases ident with ⟨name, rfl⟩
    rw [List.cons_append, isSome_ofLexemes?_ident, isSome_ofLexemes?_ident, endsName_append blank]
  · rw [isSome_ofLexemes?_other (by simpa using ident),
      isSome_ofLexemes?_other (by simpa using ident)]

theorem isSome_ofLexemes?_map_lower (lexemes : List Lexeme) :
    (ofLexemes? (lexemes.map Lexeme.lower)).isSome = (ofLexemes? lexemes).isSome := by
  rw [ofLexemes?_map_lower, Option.isSome_map]

theorem printable_malformed {lexemes : List Lexeme} (enclosed : Enclosed lexemes)
    (nonempty : lexemes ≠ []) (front : ∀ lexeme ∈ lexemes.head?, lexeme.isBlank = false)
    (other : ofLexemes? lexemes = none) :
    Printable (malformed (String.ofList (Text.trim (Lexeme.textOf lexemes)))) := by
  rcases enclosed.exists_body nonempty front with ⟨body, spaces, parts, blank, isBody, trimmed⟩
  rw [trimmed]
  have spelled : Lexeme.ofText body ≠ [] := fun none =>
    isBody.nonempty (Lexeme.ofText_eq_nil_iff.mp none)
  have again : malformed (String.ofList body) = malformed (String.ofList (Text.lower body)) := by
    simp [malformed]
  rw [again]
  refine Printable.unnamed isBody.lower (Text.lower_lower body) ?_
  rw [← Option.not_isSome_iff_eq_none, ← isSome_ofLexemes?_map_lower, Lexeme.map_lower_ofText,
    isSome_ofLexemes?_map_lower, ← isSome_ofLexemes?_append spelled blank, ← parts, other]
  decide

theorem printable_valueOf {lexemes : List Lexeme} (enclosed : Enclosed lexemes)
    {value : String} (found : valueOf lexemes = some value) : Body value.toList := by
  rcases valueOf_eq_some found with ⟨trimmed, nonempty⟩
  have filled : Lexeme.skipBlank lexemes ≠ [] := by
    intro none
    rw [none] at trimmed
    exact nonempty (String.toList_injective trimmed)
  rcases enclosed.skipBlank.exists_body filled (Lexeme.isBlank_head?_skipBlank lexemes) with
    ⟨body, _, _, _, isBody, same⟩
  rw [trimmed, same]
  exact isBody

theorem isNamed_ofWritten {name : List Char} (isWord : Name.IsWord name) (value : Option String) :
    (ofWritten (String.ofList (Text.lower name)) value).IsNamed ∧
      (ofWritten (String.ofList (Text.lower name)) value).writtenName =
        String.ofList (Text.lower name) := by
  have written := Bound.marker_append_split (String.ofList (Text.lower name))
  refine ⟨⟨rfl, ?_, ?_⟩, written⟩
  · rw [writtenName, ofWritten, written]
  · rw [writtenName, ofWritten, written, String.toList_ofList]
    exact isWord.lower

theorem printable_ofWritten {name : List Char} (isWord : Name.IsWord name)
    {value : Option String} (body : ∀ text ∈ value, Body text.toList) :
    Printable (ofWritten (String.ofList (Text.lower name)) value) := by
  rcases isNamed_ofWritten isWord value with ⟨named, written⟩
  refine Printable.named named ?_ body
  rw [written, String.toList_ofList, Text.lower_lower]

theorem isWord_of_mem {lexemes : List Lexeme} (enclosed : Enclosed lexemes)
    {name spelled : List Char} (member : ⟨.ident name, spelled⟩ ∈ lexemes) : Name.IsWord name := by
  rw [← enclosed.self] at member
  exact Name.isWord_of_mem enclosed.plain member

theorem enclosed_of_colon {name spelled colon : List Char} {rest value : List Lexeme}
    (enclosed : Enclosed (⟨.ident name, spelled⟩ :: rest))
    (behind : Lexeme.skipBlank rest = ⟨.colon, colon⟩ :: value) : Enclosed value := by
  have parts : rest = rest.takeWhile Lexeme.isBlank ++ [⟨.colon, colon⟩] ++ value := by
    rw [List.append_assoc, List.singleton_append, ← behind]
    exact List.takeWhile_append_dropWhile.symm
  rw [parts, ← List.cons_append] at enclosed
  apply enclosed.of_append
  have named : Token.nest [.round] (.ident name) = [.round] := rfl
  rw [Lexeme.nestAll_cons, named, Lexeme.nestAll_append,
    Lexeme.nestAll_of_isBlank fun lexeme => List.mem_takeWhile_imp]
  rfl

theorem printable_of_ofLexemes? {lexemes : List Lexeme} (enclosed : Enclosed lexemes)
    {test : FeatureTest} (found : ofLexemes? lexemes = some test) : Printable test := by
  rcases ofLexemes?_eq_some found with ⟨name, spelled, rest, rfl, ends⟩
  have isWord := isWord_of_mem enclosed (List.mem_cons_self ..)
  rcases ends with ⟨_, rfl⟩ | ⟨colon, value, behind, rfl⟩
  · exact printable_ofWritten isWord (by simp)
  · exact printable_ofWritten isWord fun text member =>
      printable_valueOf (enclosed_of_colon enclosed behind) member

/-- The tests of enclosed blocks are printable. -/
theorem printable_of_ofBlock? {content : List Lexeme} (enclosed : Enclosed content)
    {test : FeatureTest} (found : ofBlock? content = some test) : Printable test := by
  rcases ofBlock?_eq_some found with isTest | ⟨other, nonempty, rfl⟩
  · exact printable_of_ofLexemes? enclosed.skipBlank isTest
  · have filled : Lexeme.skipBlank content ≠ [] := by
      intro none
      rw [none] at nonempty
      exact nonempty rfl
    exact printable_malformed enclosed.skipBlank filled (Lexeme.isBlank_head?_skipBlank content)
      other

end FeatureTest

namespace Text

theorem plain_of_isClosed {text : List Char} (closed : isClosed text = true) : '\\' ∉ text := by
  simp only [isClosed, Bool.and_eq_true, Bool.not_eq_true'] at closed
  simpa using closed.1.1

theorem isClosed_of_mem {text : List Char} (closed : isClosed text = true) {lexeme : Lexeme}
    (member : lexeme ∈ Lexeme.ofText text) : lexeme.isClosed = true := by
  simp only [isClosed, Bool.and_eq_true, List.all_eq_true] at closed
  exact closed.1.2 lexeme member

theorem nestAll_of_isClosed {text : List Char} (closed : isClosed text = true) :
    Lexeme.nestAll [] (Lexeme.ofText text) = [] := by
  simp only [isClosed, Bool.and_eq_true, List.isEmpty_iff] at closed
  exact closed.2

end Text

theorem Lexeme.text_of_closing {text spelled : List Char}
    (member : ⟨.closing .round, spelled⟩ ∈ Lexeme.ofText text) : spelled = [')'] := by
  rcases Lexeme.exists_front_of_mem member with ⟨rest, _, nonempty, same⟩
  rcases Token.eq_of_scan_closing nonempty (congrArg Lexeme.token same).symm with ⟨length, front⟩
  have spelling : spelled = rest.take (Token.scan rest).2 := congrArg Lexeme.text same
  rcases List.exists_cons_of_ne_nil nonempty with ⟨first, tail, rfl⟩
  have same : first = ')' := by simpa using front
  subst same
  rw [spelling, length]
  rfl

/-- The blocks in round brackets of a closed text are enclosed. -/
theorem Enclosed.of_mem {text : List Char} (closed : Text.isClosed text = true)
    (noComma : ',' ∉ text)
    (white : ∀ character ∈ text,
      Text.isWhiteSpace character = true → Character.isSpace character = true)
    {opener : Lexeme} {content : List Lexeme}
    (member : .block opener content ∈ Component.ofText text)
    (round : opener.token = .opening .round) : Enclosed content := by
  have level := Text.nestAll_of_isClosed closed
  rcases Component.exists_closing_of_mem level (List.mem_filter.mp member).1 with
    ⟨bracket, front, spelled, back, opens, fills, parts⟩
  have same : .round = bracket := by simpa [round, Token.opens] using opens
  subst same
  have inside : ∀ lexeme ∈ content, lexeme ∈ Lexeme.ofText text := by
    intro lexeme among
    rw [parts]
    simp [among]
  have within : ∀ character ∈ Lexeme.textOf content, character ∈ text := by
    intro character spelledIn
    rcases List.mem_flatMap.mp spelledIn with ⟨lexeme, among, letter⟩
    rw [← Lexeme.textOf_ofText text]
    exact Enclosed.mem_textOf (inside lexeme among) letter
  have ended : spelled = [')'] := by
    apply @Lexeme.text_of_closing text
    rw [parts]
    simp
  have plain : '\\' ∉ Lexeme.textOf content := fun escape =>
    Text.plain_of_isClosed closed (within _ escape)
  have allClosed : ∀ lexeme ∈ content, lexeme.isClosed = true := fun lexeme among =>
    Text.isClosed_of_mem closed (inside lexeme among)
  have reads : Lexeme.Reads (Lexeme.textOf content) content (')' :: Lexeme.textOf back) := by
    rw [ended, ← List.singleton_append, ← List.append_assoc] at parts
    exact Lexeme.Reads.of_append parts
  exact {
    self := (reads.congr plain (@Text.apart_closing [] (by simp) _) Text.stops_nil
      allClosed).ofText_eq
    plain
    noComma := fun comma => noComma (within _ comma)
    white := fun character spelledIn => white character (within _ spelledIn)
    closed := allClosed
    fills }

namespace Query

/-- The clause that a query is written as: its media type only where it has to be. -/
def clause (query : Query) : Clause where
  qualifier :=
    if query.negated then some .negation else if query.markedOnly then some .only else none
  mediaType := if query.writesType then some query.mediaType else none
  tests := query.tests

/-- A query that reads as itself where it is written. -/
structure Printable (query : Query) : Prop where
  oneQualifier : ¬ (query.negated = true ∧ query.markedOnly = true)
  type : Name.IsWord query.mediaType.toList
  small : Text.lower query.mediaType.toList = query.mediaType.toList
  ownType : query.clause.HasOwnType
  tests : ∀ test ∈ query.tests, test.Printable

theorem Printable.toQuery_clause {query : Query} (printable : query.Printable) :
    query.clause.toQuery = query := by
  rcases query with ⟨negated, markedOnly, mediaType, tests⟩
  have oneQualifier := printable.oneQualifier
  by_cases written : writesType ⟨negated, markedOnly, mediaType, tests⟩ = true
  · cases negated <;> cases markedOnly <;> simp_all [clause, Clause.toQuery]
  · have all : mediaType = "all" := by
      simp only [writesType, Bool.or_eq_true, not_or, bne_iff_ne, ne_eq, not_not] at written
      exact written.1.1
    cases negated <;> cases markedOnly <;> simp_all [clause, Clause.toQuery]

/-- The media type that is read is none of the words that it could be taken for. -/
theorem hasOwnType_ofComponents (components : List Component) :
    (ofComponents components).clause.HasOwnType := by
  intro mediaType member
  have written : (if (ofComponents components).writesType then
      some (ofComponents components).mediaType else none) = some mediaType := member
  split at written
  · rw [← Option.some.inj written]
    refine ⟨mediaType_ne_and components, fun unqualified => ?_⟩
    have neither : ¬ (ofComponents components).negated = true ∧
        ¬ (ofComponents components).markedOnly = true := by
      simpa [clause, ite_eq_iff] using unqualified
    exact mediaType_ne_qualifier (by simpa using neither.1) (by simpa using neither.2)
  · simp at written

/-- The media type of a text without escapes is a word in small letters. -/
theorem isWord_mediaType {text : List Char} (plain : '\\' ∉ text) :
    Name.IsWord (ofText text).mediaType.toList ∧
      Text.lower (ofText text).mediaType.toList = (ofText text).mediaType.toList := by
  rw [ofText, ofComponents_eq]
  rcases leadingType?_cases (Qualifier.take (Component.ofText text)).2 with all | ⟨front, first,
    name, isName, _, found⟩
  · simp only [all]
    exact ⟨by decide, by decide⟩
  · have member := (Qualifier.take_suffix _).subset (List.mem_of_head? first)
    simp only [found, String.toList_ofList]
    rcases Component.exists_ident_of_name? member isName with ⟨spelled, among⟩
    exact ⟨(Name.isWord_of_mem plain among).lower, Text.lower_lower name⟩

/-- A query is printable if its text closes all that it opens. -/
theorem printable_ofText {text : List Char} (closed : Text.isClosed text = true)
    (noComma : ',' ∉ text) (white : ∀ character ∈ text,
      Text.isWhiteSpace character = true → Character.isSpace character = true) :
    (ofText text).Printable where
  oneQualifier := not_negated_and_markedOnly _
  type := (isWord_mediaType (Text.plain_of_isClosed closed)).1
  small := (isWord_mediaType (Text.plain_of_isClosed closed)).2
  ownType := hasOwnType_ofComponents _
  tests := by
    intro test member
    rcases exists_block_of_mem_tests member with ⟨opener, content, among, round, found⟩
    exact FeatureTest.printable_of_ofBlock? (Enclosed.of_mem closed noComma white among round) found

end Query

end MediaQuery
