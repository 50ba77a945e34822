import Mathlib.Data.List.DropRight
import MediaQuery.Proofs.Cursor.Block
import MediaQuery.Proofs.Feature.Test
import MediaQuery.Quantity.Reader

/-!
# Feature tests read token by token

A block can be read in one pass instead of as a list of lexemes: a cursor tries a feature test and,
if there is none, goes back to the start of the block and on to its end. Either way the block is
read in full, and what it is read as is the test of its lexemes.
-/

namespace MediaQuery

namespace FeatureTest

/-- A text without the white space around it, if anything is left. -/
def trimmed? (text : List Char) : Option String :=
  match Text.trim text with
  | [] => none
  | kept => some (String.ofList kept)

/-- How lexemes name a feature: the name stands alone, or with a colon and a value behind it. -/
inductive Names : List Lexeme → List Char → Option (List Lexeme) → Prop where
  | alone {name spelled : List Char} {rest : List Lexeme} (ends : Lexeme.skipBlank rest = []) :
      Names (⟨.ident name, spelled⟩ :: rest) name none
  | valued {name spelled colon : List Char} {rest value : List Lexeme}
      (goesOn : Lexeme.skipBlank rest = ⟨.colon, colon⟩ :: value) :
      Names (⟨.ident name, spelled⟩ :: rest) name (some value)

/--
What a block is read as. It is well-formed exactly if it names a feature, and then it has the name
without its bound and the trimmed text behind the colon. The trimmed text of any other block is
malformed, unless it is empty.
-/
structure IsClassified (content : List Lexeme) (result : Option FeatureTest) : Prop where
  wellFormed : (∃ test, result = some test ∧ test.isMalformed = false) ↔
    ∃ name value?, Names (Lexeme.skipBlank content) name value?
  named : ∀ name value?, Names (Lexeme.skipBlank content) name value? →
    ∃ test, result = some test ∧
      (test.bound, test.name) = Bound.split (String.ofList (Text.lower name)) ∧
      test.value = value?.bind fun value => trimmed? (Lexeme.textOf (Lexeme.skipBlank value))
  other : (¬ ∃ name value?, Names (Lexeme.skipBlank content) name value?) →
    result = (trimmed? (Lexeme.textOf (Lexeme.skipBlank content))).map malformed

/-- A block that is no feature test is malformed, unless nothing is in it. -/
theorem ofBlock?_eq (content : List Lexeme) :
    ofBlock? content =
      (ofLexemes? (Lexeme.skipBlank content)).or
        ((trimmed? (Lexeme.textOf (Lexeme.skipBlank content))).map malformed) := by
  simp only [ofBlock?, trimmed?]
  rcases ofLexemes? (Lexeme.skipBlank content) with _ | test
  · rcases Text.trim (Lexeme.textOf (Lexeme.skipBlank content)) with _ | ⟨first, rest⟩ <;> rfl
  · rfl

theorem Names.ofLexemes?_eq {lexemes : List Lexeme} {name : List Char}
    {value? : Option (List Lexeme)} (names : Names lexemes name value?) :
    ofLexemes? lexemes =
      some (ofWritten (String.ofList (Text.lower name))
        (value?.bind fun value => trimmed? (Lexeme.textOf (Lexeme.skipBlank value)))) := by
  cases names with
  | alone ends =>
      simp only [ofLexemes?, ends]
      rfl
  | valued goesOn =>
      simp only [ofLexemes?, goesOn]
      rfl

theorem exists_names_iff {lexemes : List Lexeme} :
    (∃ name value?, Names lexemes name value?) ↔ ∃ test, ofLexemes? lexemes = some test := by
  constructor
  · rintro ⟨name, value?, names⟩
    exact ⟨_, names.ofLexemes?_eq⟩
  · rintro ⟨test, isTest⟩
    rcases ofLexemes?_eq_some isTest with
      ⟨name, spelled, rest, rfl, ends | ⟨colon, value, goesOn, _⟩⟩
    · exact ⟨name, none, .alone ends.1⟩
    · exact ⟨name, some value, .valued goesOn⟩

theorem isClassified_ofBlock? (content : List Lexeme) :
    IsClassified content (ofBlock? content) := by
  have named : ∀ name value?, Names (Lexeme.skipBlank content) name value? →
      ofBlock? content = some (ofWritten (String.ofList (Text.lower name))
        (value?.bind fun value => trimmed? (Lexeme.textOf (Lexeme.skipBlank value)))) := by
    intro name value? names
    rw [ofBlock?_eq, names.ofLexemes?_eq]
    rfl
  have other : (¬ ∃ name value?, Names (Lexeme.skipBlank content) name value?) →
      ofBlock? content =
        (trimmed? (Lexeme.textOf (Lexeme.skipBlank content))).map malformed := by
    intro unnamed
    rcases isTest : ofLexemes? (Lexeme.skipBlank content) with _ | test
    · rw [ofBlock?_eq, isTest]
      rfl
    · exact absurd (exists_names_iff.mpr ⟨test, isTest⟩) unnamed
  constructor
  case wellFormed =>
    constructor
    · rintro ⟨test, isTest, wellFormed⟩
      by_contra unnamed
      rw [other unnamed] at isTest
      rcases Option.map_eq_some_iff.mp isTest with ⟨text, _, rfl⟩
      cases wellFormed
    · rintro ⟨name, value?, names⟩
      exact ⟨_, named name value? names, rfl⟩
  case named =>
    intro name value? names
    exact ⟨_, named name value? names, rfl, rfl⟩
  case other =>
    exact other

end FeatureTest

namespace Reader

variable {Value : Type}

/-- A value that is read last in a block; what follows in the block is refused. -/
def last (bracket : Bracket) (value : Value) : Reader Value :=
  fun cursor =>
    (if (cursor.nextWithin bracket).1.isNone then .ok value else .error .trailingInput, cursor)

/-- Reads what follows the name of a feature in a block: nothing, or a colon and a value. -/
def testOfName (text : String) (name : List Char) : Reader FeatureTest :=
  fun cursor =>
    let written := String.ofList (Text.lower name)
    match cursor.nextWithin .round with
    | (some ⟨.colon, _⟩, after) =>
        let start := after.settle
        let stop := start.drain .round
        let value := FeatureTest.trimmed? (Cursor.slice text start stop)
        last .round (.ofWritten written value) stop
    | _ => last .round (.ofWritten written none) cursor

/-- Reads what is ahead in a block as a feature test, which starts with a name. -/
def featureTest (text : String) : Reader FeatureTest :=
  fun cursor =>
    match cursor.nextWithin .round with
    | (some ⟨.ident name, _⟩, after) => testOfName text name after
    | (_, after) => (.error .unexpectedToken, after)

/-- Reads what is ahead in a block as a test, or else as the text of a malformed one. -/
def featureBlock (text : String) : Reader (Option FeatureTest) :=
  fun cursor =>
    let start := cursor.settle
    match featureTest text start with
    | (.ok test, after) => (.ok (some test), after)
    | (.error _, _) =>
        let stop := start.drain .round
        (.ok ((FeatureTest.trimmed? (Cursor.slice text start stop)).map .malformed), stop)

/-- Reads the block whose opening was read last and leaves it. -/
def nested (bracket : Bracket) (read : Reader Value) : Reader Value :=
  fun cursor =>
    let (result, after) := read { cursor with opened := none }
    let filled := if (after.nextWithin bracket).1.isNone then result
      else result.bind fun _ => .error .trailingInput
    (filled, after.leave bracket)

section

variable (text : String) (name : List Char) (cursor : Cursor)

/-- The name of a feature is all of its test, or a colon and a value follow. -/
theorem testOfName_cases :
    (testOfName text name cursor =
          last .round (.ofWritten (String.ofList (Text.lower name)) none) cursor ∧
        ∀ colon value, cursor.settle.within .round ≠ ⟨.colon, colon⟩ :: value) ∨
      ∃ colon after, cursor.nextWithin .round = (some ⟨.colon, colon⟩, after) ∧
        cursor.settle.within .round = ⟨.colon, colon⟩ :: after.within .round ∧
        after.opened = none ∧ after.beyond .round = cursor.beyond .round ∧
        testOfName text name cursor =
          last .round (.ofWritten (String.ofList (Text.lower name))
            (FeatureTest.trimmed? (Cursor.slice text after.settle (after.settle.drain .round))))
            (after.settle.drain .round) := by
  unfold testOfName
  rcases cursor.nextWithin_cases .round with
    ⟨nothing, _, next⟩ | ⟨⟨token, colon⟩, after, next, within, beyond, opened, _⟩
  · rw [next]
    exact Or.inl ⟨rfl, by simp [nothing]⟩
  · rw [next]
    cases token with
    | colon => exact Or.inr ⟨colon, after, rfl, within, opened, beyond, rfl⟩
    | _ => exact Or.inl ⟨rfl, by simp [within]⟩

/-- A feature test starts with a name. -/
theorem featureTest_cases :
    (∃ after, featureTest text cursor = (.error .unexpectedToken, after) ∧
        after.Follows cursor ∧ after.beyond .round = cursor.beyond .round ∧
        ∀ name spelled rest, cursor.settle.within .round ≠ ⟨.ident name, spelled⟩ :: rest) ∨
      ∃ name spelled after, cursor.nextWithin .round = (some ⟨.ident name, spelled⟩, after) ∧
        cursor.settle.within .round = ⟨.ident name, spelled⟩ :: after.within .round ∧
        after.opened = none ∧ after.beyond .round = cursor.beyond .round ∧
        featureTest text cursor = testOfName text name after := by
  unfold featureTest
  rcases cursor.nextWithin_cases .round with
    ⟨nothing, _, next⟩ | ⟨⟨token, spelled⟩, after, next, within, beyond, opened, _⟩
  · rw [next]
    exact Or.inl ⟨cursor.settle, rfl, cursor.follows_settle, cursor.beyond_settle .round,
      by simp [nothing]⟩
  · have follows := cursor.nextWithin_follows .round next
    rw [next]
    cases token with
    | ident name => exact Or.inr ⟨name, spelled, after, rfl, within, opened, beyond, rfl⟩
    | _ => exact Or.inl ⟨after, rfl, follows, beyond, by simp [within]⟩

/-- Reading a feature test does not lead beyond the block. -/
theorem beyond_featureTest :
    (featureTest text cursor).2.beyond .round = cursor.beyond .round := by
  rcases featureTest_cases text cursor with
    ⟨after, failed, _, beyond, _⟩ | ⟨name, _, after, _, _, _, beyond, read⟩
  · rw [failed, beyond]
  · rw [read, ← beyond]
    rcases testOfName_cases text name after with ⟨alone, _⟩ | ⟨_, behind, _, _, _, beyond, valued⟩
    · rw [alone]
      rfl
    · rw [valued]
      change (behind.settle.drain .round).beyond .round = _
      rw [Cursor.beyond_drain, Cursor.beyond_settle, beyond]

theorem follows_featureTest : (featureTest text cursor).2.Follows cursor := by
  rcases featureTest_cases text cursor with
    ⟨after, failed, follows, _⟩ | ⟨name, _, after, next, _, _, _, read⟩
  · rw [failed]
    exact follows
  · have follows := cursor.nextWithin_follows .round next
    rw [read]
    rcases testOfName_cases text name after with ⟨alone, _⟩ | ⟨_, behind, nextToo, _, _, _, valued⟩
    · rw [alone]
      exact follows
    · rw [valued]
      exact (Cursor.follows_drain .round behind.settle).trans (behind.follows_settle.trans
        ((after.nextWithin_follows .round nextToo).trans follows))

/-- A feature test that is read is the last of its block. -/
theorem nextWithin_featureTest {test : FeatureTest}
    (read : (featureTest text cursor).1 = .ok test) :
    ((featureTest text cursor).2.nextWithin .round).1 = none := by
  have isLast : ∀ {value : FeatureTest} {stop : Cursor}, (last .round value stop).1 = .ok test →
      ((last .round value stop).2.nextWithin .round).1 = none := by
    intro value stop read
    simp only [last] at read ⊢
    split at read
    · rename_i ended
      exact Option.isNone_iff_eq_none.mp ended
    · cases read
  rcases featureTest_cases text cursor with ⟨_, failed, _⟩ | ⟨name, _, after, _, _, _, _, same⟩
  · rw [failed] at read
    cases read
  · rw [same] at read ⊢
    rcases testOfName_cases text name after with ⟨alone, _⟩ | ⟨_, _, _, _, _, _, valued⟩
    · rw [alone] at read ⊢
      exact isLast read
    · rw [valued] at read ⊢
      exact isLast read

end

variable {text : String} {name spelled : List Char} {cursor : Cursor}

/-- The text up to the end of a block is that of the lexemes within it. -/
theorem slice_drain (isIn : cursor.IsIn text) :
    Cursor.slice text cursor (cursor.drain .round) = Lexeme.textOf (cursor.within .round) := by
  apply Cursor.slice_eq isIn
  · rw [Cursor.drain_eq]
  · rw [Cursor.drain_eq, Cursor.within_append_beyond]

/-- What follows a name is read exactly if it makes a feature test with the name. -/
theorem toOption_testOfName (isIn : cursor.IsIn text) (passed : cursor.opened = none) :
    (testOfName text name cursor).1.toOption =
      FeatureTest.ofLexemes? (⟨.ident name, spelled⟩ :: cursor.within .round) := by
  have settled := cursor.within_settle .round passed
  have ended := Cursor.nextWithin_fst_eq_none_iff .round cursor passed
  rcases testOfName_cases text name cursor with
    ⟨alone, noColon⟩ | ⟨colon, after, next, within, opened, _, valued⟩
  · rw [alone]
    rw [settled] at noColon
    rcases behind : Lexeme.skipBlank (cursor.within .round) with _ | ⟨⟨token, spelledToo⟩, rest⟩
    · simp only [last, ended.mpr behind, FeatureTest.ofLexemes?, behind]
      rfl
    · rcases more : (cursor.nextWithin .round).1 with _ | lexeme
      · rw [ended.mp more] at behind
        cases behind
      · simp only [last, more, FeatureTest.ofLexemes?, behind]
        cases token with
        | colon => exact absurd behind (noColon spelledToo rest)
        | _ => rfl
  · have isInValue : after.settle.IsIn text :=
      ((Cursor.follows_settle after).trans (cursor.nextWithin_follows .round next)).isIn isIn
    have drained : ((after.settle.drain .round).nextWithin .round).1 = none := by
      rw [Cursor.nextWithin_fst_eq_none_iff _ _ (by rw [Cursor.drain_eq]), Cursor.within_drain]
      rfl
    rw [settled] at within
    rw [valued, slice_drain isInValue, Cursor.within_settle _ _ opened]
    simp only [last, drained, FeatureTest.ofLexemes?, within]
    rfl

/-- A feature test is read exactly if the lexemes of the block are one. -/
theorem toOption_featureTest (isIn : cursor.IsIn text) (passed : cursor.opened = none) :
    (featureTest text cursor).1.toOption =
      FeatureTest.ofLexemes? (Lexeme.skipBlank (cursor.within .round)) := by
  rw [← cursor.within_settle .round passed]
  rcases featureTest_cases text cursor with
    ⟨after, failed, _, _, noName⟩ | ⟨name, spelled, after, next, within, opened, _, same⟩
  · rw [failed]
    rcases isTest : FeatureTest.ofLexemes? (cursor.settle.within .round) with _ | test
    · rfl
    · rcases FeatureTest.ofLexemes?_eq_some isTest with ⟨name, spelled, rest, starts, _⟩
      exact absurd starts (noName name spelled rest)
  · rw [same, within]
    exact toOption_testOfName ((cursor.nextWithin_follows .round next).isIn isIn) opened

section

variable (text : String) (cursor : Cursor)

/-- A block is read as a test, or up to its end once more. -/
theorem featureBlock_cases :
    (∃ test after, featureTest text cursor.settle = (.ok test, after) ∧
        featureBlock text cursor = (.ok (some test), after)) ∨
      (featureTest text cursor.settle).1.toOption = none ∧
        featureBlock text cursor =
          (.ok ((FeatureTest.trimmed? (Cursor.slice text cursor.settle
              (cursor.settle.drain .round))).map .malformed),
            cursor.settle.drain .round) := by
  simp only [featureBlock]
  rcases featureTest text cursor.settle with ⟨error | test, after⟩
  · exact Or.inr ⟨rfl, rfl⟩
  · exact Or.inl ⟨test, after, rfl, rfl⟩

theorem follows_featureBlock : (featureBlock text cursor).2.Follows cursor := by
  have follows := (follows_featureTest text cursor.settle).trans cursor.follows_settle
  rcases featureBlock_cases text cursor with ⟨test, after, read, same⟩ | ⟨_, same⟩
  · rw [read] at follows
    rw [same]
    exact follows
  · rw [same]
    exact (Cursor.follows_drain .round cursor.settle).trans cursor.follows_settle

theorem beyond_featureBlock :
    (featureBlock text cursor).2.beyond .round = cursor.beyond .round := by
  rw [← Cursor.beyond_settle .round cursor]
  rcases featureBlock_cases text cursor with ⟨test, after, read, same⟩ | ⟨_, same⟩
  · rw [same, ← beyond_featureTest text cursor.settle, read]
  · rw [same]
    exact Cursor.beyond_drain .round cursor.settle

/-- Nothing is left of a block that is read. -/
theorem nextWithin_featureBlock : ((featureBlock text cursor).2.nextWithin .round).1 = none := by
  rcases featureBlock_cases text cursor with ⟨test, after, read, same⟩ | ⟨_, same⟩
  · have ended := nextWithin_featureTest text cursor.settle (congrArg Prod.fst read)
    rw [read] at ended
    rw [same]
    exact ended
  · rw [same]
    exact Cursor.nextWithin_drain .round cursor.settle

/-- Reading a block leads behind the bracket that closes it, whatever the block holds. -/
theorem nested_featureBlock_snd :
    (nested .round (featureBlock text) cursor).2 =
      { cursor with
        opened := none
        rest := cursor.rest.drop ((Lexeme.blockContent [.round] cursor.rest).length + 1) } := by
  have size := (follows_featureBlock text { cursor with opened := none }).size
  have rest := Cursor.leave_rest .round (featureBlock text { cursor with opened := none }).2
  rw [beyond_featureBlock, Cursor.beyond, List.tail_drop] at rest
  change Cursor.leave .round (featureBlock text { cursor with opened := none }).2 = _
  rw [Cursor.mk.injEq]
  exact ⟨size, rfl, rest⟩

end

/-- What a block is read as is the test of its lexemes, and reading it never fails. -/
theorem featureBlock_fst (isIn : cursor.IsIn text) (passed : cursor.opened = none) :
    (featureBlock text cursor).1 = .ok (FeatureTest.ofBlock? (cursor.within .round)) := by
  have isInStart := cursor.follows_settle.isIn isIn
  have body := cursor.within_settle .round passed
  have isTest : (featureTest text cursor.settle).1.toOption =
      FeatureTest.ofLexemes? (Lexeme.skipBlank (cursor.within .round)) := by
    rw [toOption_featureTest isInStart rfl, body]
    exact congrArg _ (List.dropWhile_idempotent Lexeme.isBlank _)
  rw [FeatureTest.ofBlock?_eq, ← isTest]
  rcases featureBlock_cases text cursor with ⟨test, after, read, same⟩ | ⟨other, same⟩
  · rw [same, read]
    rfl
  · rw [same, other, slice_drain isInStart, body]
    rfl

/-- A block that is read is left at its end, so it is never refused for what it holds. -/
theorem nested_featureBlock (isIn : cursor.IsIn text) :
    (nested .round (featureBlock text) cursor).1 =
      .ok (FeatureTest.ofBlock? (Lexeme.blockContent [.round] cursor.rest)) := by
  have isInBlock : Cursor.IsIn text { cursor with opened := none } := ⟨isIn.size, isIn.rest⟩
  simp only [nested, nextWithin_featureBlock, Option.isNone_none, if_true]
  exact featureBlock_fst isInBlock rfl

end Reader

end MediaQuery
