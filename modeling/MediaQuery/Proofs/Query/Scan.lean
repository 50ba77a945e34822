import MediaQuery.Proofs.Feature.Reader
import MediaQuery.Proofs.Quantity.Run
import MediaQuery.Proofs.Query.Component
import MediaQuery.Proofs.Query.Reader

/-!
# Queries read token by token

A query can be read without taking its components apart first: a cursor goes through the text,
tries a qualifier and a media type and goes back if there is none, and reads every block in round
brackets as a feature test. Each block is read for what it holds, and left behind the bracket that
closes it, and the query is the one of the components.
-/

namespace MediaQuery

namespace Component

/-- The component that starts with a lexeme. -/
def startingWith (lexeme : Lexeme) (rest : List Lexeme) : Component :=
  match lexeme.token.opens with
  | none => .token lexeme
  | some bracket => .block lexeme (Lexeme.blockContent [bracket] rest)

theorem name?_startingWith (lexeme : Lexeme) (rest : List Lexeme) :
    (startingWith lexeme rest).name? = (token lexeme).name? := by
  rcases lexeme with ⟨token, text⟩
  cases token <;> rfl

theorem content?_startingWith (lexeme : Lexeme) (rest : List Lexeme) :
    (startingWith lexeme rest).content? =
      if lexeme.token = .opening .round then some (Lexeme.blockContent [.round] rest)
      else none := by
  rcases lexeme with ⟨token, text⟩
  cases token with
  | opening bracket => cases bracket <;> rfl
  | _ => rfl

theorem isBlank_startingWith (lexeme : Lexeme) (rest : List Lexeme) :
    (startingWith lexeme rest).isBlank = lexeme.isBlank := by
  rcases lexeme with ⟨token, text⟩
  cases token <;> rfl

/-- Blank lexemes in front do not show among the components. -/
theorem filter_ofLexemes_skipBlank (lexemes : List Lexeme) :
    (ofLexemes (Lexeme.skipBlank lexemes)).filter (fun component => !component.isBlank) =
      (ofLexemes lexemes).filter fun component => !component.isBlank := by
  induction lexemes with
  | nil => rfl
  | cons lexeme rest ih =>
      by_cases blank : lexeme.isBlank = true
      · have skips : Lexeme.skipBlank (lexeme :: rest) = Lexeme.skipBlank rest := by
          simp [Lexeme.skipBlank, blank]
        have separates : (token lexeme).isBlank = true := blank
        rw [skips, ih, ofLexemes_token (Token.opens_of_isBlank blank), List.filter_cons]
        simp [separates]
      · rw [Lexeme.skipBlank_cons (by simpa using blank)]

end Component

namespace Cursor

/-- The components ahead that mean something. -/
def components (cursor : Cursor) : List Component :=
  (Component.ofLexemes cursor.pastBlock).filter fun component => !component.isBlank

theorem components_start (text : String) :
    (start text).components = Component.ofText text.toList :=
  rfl

/-- A component starts with the first of its lexemes, and the others come behind it. -/
theorem ofLexemes_cons {cursor : Cursor} {lexeme : Lexeme}
    (opened : cursor.opened = lexeme.token.opens) :
    Component.ofLexemes (lexeme :: cursor.rest) =
      Component.startingWith lexeme cursor.rest :: Component.ofLexemes cursor.pastBlock := by
  unfold Component.startingWith pastBlock
  rw [opened]
  rcases opens : lexeme.token.opens with _ | bracket
  · exact Component.ofLexemes_token opens cursor.rest
  · exact Component.ofLexemes_block opens cursor.rest

/-- The next token ahead starts the next component ahead. -/
theorem components_cases (cursor : Cursor) :
    (cursor.next = (none, cursor.settle) ∧ cursor.components = []) ∨
      ∃ lexeme after, cursor.next = (some lexeme, after) ∧ after.Follows cursor ∧
        after.opened = lexeme.token.opens ∧ lexeme :: after.rest <:+ cursor.rest ∧
        cursor.components = Component.startingWith lexeme after.rest :: after.components := by
  have settled : cursor.components =
      (Component.ofLexemes cursor.settle.rest).filter fun component => !component.isBlank :=
    (Component.filter_ofLexemes_skipBlank cursor.pastBlock).symm
  have tail := cursor.settle_rest_suffix
  have solid := Lexeme.isBlank_head?_skipBlank cursor.pastBlock
  change ∀ lexeme ∈ cursor.settle.rest.head?, lexeme.isBlank = false at solid
  unfold next
  rw [settled]
  rcases ahead : cursor.settle.rest with _ | ⟨lexeme, rest⟩
  · exact Or.inl ⟨rfl, rfl⟩
  · right
    rw [ahead] at tail solid
    have behind := (List.suffix_cons lexeme rest).trans tail
    refine ⟨lexeme, ⟨cursor.size, lexeme.token.opens, rest⟩, rfl, ⟨rfl, behind⟩, rfl, tail, ?_⟩
    rw [@ofLexemes_cons ⟨cursor.size, lexeme.token.opens, rest⟩ lexeme rfl, List.filter_cons,
      Component.isBlank_startingWith, solid lexeme rfl]
    rfl

theorem components_of_next {cursor after : Cursor} {lexeme : Lexeme}
    (next : cursor.next = (some lexeme, after)) :
    after.Follows cursor ∧ after.opened = lexeme.token.opens ∧
      lexeme :: after.rest <:+ cursor.rest ∧
      cursor.components = Component.startingWith lexeme after.rest :: after.components := by
  rcases cursor.components_cases with ⟨nothing, _⟩ | ⟨_, _, found, ahead⟩
  · rw [nothing] at next
    cases next
  · rw [found] at next
    cases next
    exact ahead

theorem components_of_ended {cursor after : Cursor} (next : cursor.next = (none, after)) :
    cursor.components = [] := by
  rcases cursor.components_cases with ⟨_, nothing⟩ | ⟨_, _, found, _⟩
  · exact nothing
  · rw [found] at next
    cases next

end Cursor

namespace Reader

variable {Value : Type}

/-- Reads a name that has a meaning. -/
def ofName (meaning : List Char → Option Value) : Reader Value :=
  ofToken fun lexeme =>
    match (Component.token lexeme).name?.bind meaning with
    | some value => .ok value
    | none => .error .unexpectedToken

/-- Reads a given word in any letter case. -/
def word (expected : String) : Reader Unit :=
  ofName fun name => if String.ofList (Text.lower name) = expected then some () else none

/-- Reads a media type, which is any name but `and`. -/
def mediaType : Reader String :=
  ofName fun name => (some (String.ofList (Text.lower name))).filter (· != "and")

/-- Tries the two words that may start a query. -/
def qualifier (cursor : Cursor) : Option Qualifier × Cursor :=
  match attempt (word "only") cursor with
  | (some _, after) => (some .only, after)
  | (none, back) =>
      match attempt (word "not") back with
      | (some _, after) => (some .negation, after)
      | (none, back) => (none, back)

/-- A name is read if it is the next component and has a meaning. -/
theorem attempt_ofName_cases (meaning : List Char → Option Value) (cursor : Cursor) :
    (∃ value component after, attempt (ofName meaning) cursor = (some value, after) ∧
        after.Follows cursor ∧ cursor.components = component :: after.components ∧
        component.name?.bind meaning = some value) ∨
      attempt (ofName meaning) cursor = (none, cursor) ∧
        ∀ component ∈ cursor.components.head?, component.name?.bind meaning = none := by
  unfold attempt ofName ofToken
  rcases cursor.components_cases with
    ⟨next, nothing⟩ | ⟨lexeme, after, next, follows, _, _, components⟩
  · rw [next, nothing]
    exact Or.inr ⟨rfl, by simp⟩
  · simp only [next, components]
    have starts := Component.name?_startingWith lexeme after.rest
    rcases means : (Component.token lexeme).name?.bind meaning with _ | value
    · right
      refine ⟨rfl, fun component member => ?_⟩
      have same : Component.startingWith lexeme after.rest = component := by simpa using member
      rw [← same, starts, means]
    · left
      exact ⟨value, _, after, rfl, follows, rfl, by rw [starts, means]⟩

theorem attempt_word_cases (expected : String) (cursor : Cursor) :
    (∃ name component after, attempt (word expected) cursor = (some (), after) ∧
        after.Follows cursor ∧ cursor.components = component :: after.components ∧
        component.name? = some name ∧ String.ofList (Text.lower name) = expected) ∨
      attempt (word expected) cursor = (none, cursor) ∧
        ∀ component ∈ cursor.components.head?, ∀ name ∈ component.name?,
          String.ofList (Text.lower name) ≠ expected := by
  unfold word
  rcases attempt_ofName_cases
      (fun name => if String.ofList (Text.lower name) = expected then some () else none) cursor with
    ⟨_, component, after, tried, follows, components, means⟩ | ⟨tried, otherwise⟩
  · left
    rcases Option.bind_eq_some_iff.mp means with ⟨name, isName, fits⟩
    exact ⟨name, component, after, tried, follows, components, isName, by simpa using fits⟩
  · right
    refine ⟨tried, fun component first name isName => ?_⟩
    have means := otherwise component first
    rw [Option.mem_def.mp isName] at means
    simpa using means

/-- The words that may start a query are read as the qualifier of the components. -/
theorem qualifier_eq_take (cursor : Cursor) :
    (qualifier cursor).2.Follows cursor ∧
      ((qualifier cursor).1, (qualifier cursor).2.components) =
        Qualifier.take cursor.components := by
  unfold qualifier
  rcases attempt_word_cases "only" cursor with
    ⟨name, component, after, tried, follows, components, isName, fits⟩ | ⟨tried, noOnly⟩
  · rw [tried, components, Qualifier.take_cons, isName]
    simp [Qualifier.ofName?, fits, follows]
  · rw [tried]
    rcases attempt_word_cases "not" cursor with
      ⟨name, component, after, tried, follows, components, isName, fits⟩ | ⟨tried, noNot⟩
    · simp only [tried]
      rw [components, Qualifier.take_cons, isName]
      simp [Qualifier.ofName?, fits, follows]
    · simp only [tried]
      refine ⟨.refl cursor, ?_⟩
      rcases ahead : cursor.components with _ | ⟨component, rest⟩
      · rfl
      · rw [ahead] at noOnly noNot
        have unqualified : component.name?.bind Qualifier.ofName? = none := by
          apply Option.bind_eq_none_iff.mpr
          intro name isName
          unfold Qualifier.ofName?
          split
          · exact absurd ‹_› (noOnly component rfl name isName)
          · exact absurd ‹_› (noNot component rfl name isName)
          · rfl
        rw [Qualifier.take_cons, unqualified]

/-- The media type that is tried is the one in front of the components, and leads past no block. -/
theorem attempt_mediaType (cursor : Cursor) :
    (attempt mediaType cursor).2.Follows cursor ∧
      (attempt mediaType cursor).1 = Query.leadingType? cursor.components ∧
      (attempt mediaType cursor).2.components.filterMap Component.content? =
        cursor.components.filterMap Component.content? := by
  have leading : ∀ component rest, Query.leadingType? (component :: rest) =
      component.name?.bind fun name =>
        (some (String.ofList (Text.lower name))).filter (· != "and") := by
    intro component rest
    simp only [Query.leadingType?]
    rcases component.name? with _ | name <;> rfl
  unfold mediaType
  rcases attempt_ofName_cases
      (fun name => (some (String.ofList (Text.lower name))).filter (· != "and")) cursor with
    ⟨value, component, after, tried, follows, components, means⟩ | ⟨tried, otherwise⟩
  · rcases Option.bind_eq_some_iff.mp means with ⟨name, isName, _⟩
    rw [tried, components, leading, means, List.filterMap_cons,
      Component.content?_of_name? isName]
    exact ⟨follows, rfl, rfl⟩
  · rw [tried]
    refine ⟨.refl cursor, ?_, rfl⟩
    rcases ahead : cursor.components with _ | ⟨component, rest⟩
    · rfl
    · rw [leading, otherwise component (by rw [ahead]; rfl)]

end Reader

/-- A block in round brackets as it is read: behind which place, as what, and up to where. -/
structure ScannedBlock where
  start : Cursor
  result : Except ReadError (Option FeatureTest)
  stop : Cursor

namespace ScannedBlock

/-- The lexemes from behind the opening bracket of a block up to its closing one. -/
def content (block : ScannedBlock) : List Lexeme :=
  Lexeme.blockContent [.round] block.start.rest

/-- The test that a block adds to a query, if reading it has not failed. -/
def test? (block : ScannedBlock) : Option FeatureTest :=
  block.result.toOption.join

end ScannedBlock

namespace Reader

theorem follows_nested (text : String) (cursor : Cursor) :
    (nested .round (featureBlock text) cursor).2.Follows cursor := by
  rw [nested_featureBlock_snd]
  exact ⟨rfl, List.drop_suffix _ _⟩

/-- The components behind a block stay those ahead of a cursor in front of its content. -/
theorem components_nested (text : String) {cursor : Cursor} (opened : cursor.opened = some .round) :
    (nested .round (featureBlock text) cursor).2.components = cursor.components := by
  simp only [Cursor.components, Cursor.pastBlock, nested_featureBlock_snd, opened]

/-- The blocks in round brackets that are met on the way to the end. -/
def blocks (text : String) (cursor : Cursor) : List ScannedBlock :=
  match _ : cursor.next with
  | (none, _) => []
  | (some lexeme, after) =>
      if lexeme.token = .opening .round then
        let stop := (nested .round (featureBlock text) after).2
        ⟨after, (nested .round (featureBlock text) after).1, stop⟩ :: blocks text stop
      else
        blocks text after
termination_by cursor.rest.length
decreasing_by
  all_goals
    rcases Cursor.components_of_next ‹_› with ⟨_, _, tail, _⟩
    have shorter : after.rest.length < cursor.rest.length := tail.length_le
    first
      | exact shorter
      | exact (follows_nested text after).rest.length_le.trans_lt shorter

/-- The blocks that are met are those among the components. -/
theorem map_content_blocks (text : String) (cursor : Cursor) :
    (blocks text cursor).map ScannedBlock.content =
      cursor.components.filterMap Component.content? := by
  fun_induction blocks text cursor with
  | case1 cursor _ next =>
      rw [Cursor.components_of_ended next]
      rfl
  | case2 cursor lexeme after next opens stop ih =>
      rcases Cursor.components_of_next next with ⟨_, opened, _, components⟩
      rw [opens] at opened
      rw [List.map_cons, ih, components_nested text opened, components, List.filterMap_cons,
        Component.content?_startingWith, if_pos opens]
      rfl
  | case3 cursor lexeme after next other ih =>
      rcases Cursor.components_of_next next with ⟨_, _, _, components⟩
      rw [ih, components, List.filterMap_cons, Component.content?_startingWith, if_neg other]

/-- Every block that is met is read on its own, from behind its opening bracket. -/
theorem read_of_mem_blocks {text : String} {cursor : Cursor} (isIn : cursor.IsIn text)
    {block : ScannedBlock} (member : block ∈ blocks text cursor) :
    (∃ opening, ⟨.opening .round, opening⟩ :: block.start.rest <:+ (Cursor.start text).rest) ∧
      block.start.IsIn text ∧
      block.result = (nested .round (featureBlock text) block.start).1 ∧
      block.stop = (nested .round (featureBlock text) block.start).2 := by
  fun_induction blocks text cursor with
  | case1 cursor _ next => simp at member
  | case2 cursor lexeme after next opens stop ih =>
      rcases Cursor.components_of_next next with ⟨follows, _, tail, _⟩
      have isInAfter := follows.isIn isIn
      rcases List.mem_cons.mp member with rfl | later
      · refine ⟨⟨lexeme.text, ?_⟩, isInAfter, rfl, rfl⟩
        rw [← opens]
        exact tail.trans isIn.rest
      · exact ih ((follows_nested text after).isIn isInAfter) later
  | case3 cursor lexeme after next other ih =>
      exact ih ((Cursor.components_of_next next).1.isIn isIn) member

end Reader

/--
What is right of a block that is read. It is behind an opening bracket of the text, it is read for
what it holds and never refused, and what follows is read from behind the bracket that closes it,
if there is one.
-/
structure ScannedBlock.IsExact (text : String) (block : ScannedBlock) : Prop where
  opens : ∃ opening, ⟨.opening .round, opening⟩ :: block.start.rest <:+ Lexeme.ofText text.toList
  reads : ∃ test?, block.result = .ok test? ∧ FeatureTest.IsClassified block.content test?
  resumes : block.stop.opened = none ∧
    ((∃ closing, Lexeme.Fills .round block.content ∧
        block.start.rest = block.content ++ ⟨.closing .round, closing⟩ :: block.stop.rest) ∨
      block.start.rest = block.content ∧ block.stop.rest = [])

namespace Query

/-- The qualifier and the media type in front of a text, and the place behind them. -/
def scanHead (text : String) : Option Qualifier × Option String × Cursor :=
  let front := Reader.qualifier (Cursor.start text)
  (front.1, Reader.attempt Reader.mediaType front.2)

/-- The blocks in round brackets that are met in a text behind its head. -/
def scannedBlocks (text : String) : List ScannedBlock :=
  Reader.blocks text (scanHead text).2.2

/-- The query that a text is read as token by token. -/
def scan (text : String) : Query :=
  { negated := (scanHead text).1 == some .negation
    markedOnly := (scanHead text).1 == some .only
    mediaType := (scanHead text).2.1.getD "all"
    tests := (scannedBlocks text).filterMap ScannedBlock.test? }

theorem scanHead_eq (text : String) :
    (scanHead text).2.2.Follows (Cursor.start text) ∧
      (scanHead text).1 = (Qualifier.take (Component.ofText text.toList)).1 ∧
      (scanHead text).2.1 = leadingType? (Qualifier.take (Component.ofText text.toList)).2 ∧
      (scanHead text).2.2.components.filterMap Component.content? =
        (Qualifier.take (Component.ofText text.toList)).2.filterMap Component.content? := by
  rcases Reader.qualifier_eq_take (Cursor.start text) with ⟨follows, taken⟩
  rw [Cursor.components_start] at taken
  rcases Reader.attempt_mediaType (Reader.qualifier (Cursor.start text)).2 with
    ⟨followsToo, mediaType, contents⟩
  rw [← taken]
  exact ⟨followsToo.trans follows, rfl, mediaType, contents⟩

theorem isExact_of_mem_scannedBlocks {text : String} {block : ScannedBlock}
    (member : block ∈ scannedBlocks text) : block.IsExact text := by
  have isIn := (scanHead_eq text).1.isIn (.start text)
  rcases Reader.read_of_mem_blocks isIn member with ⟨opens, isInBlock, result, stop⟩
  rw [Reader.nested_featureBlock isInBlock] at result
  rw [Reader.nested_featureBlock_snd] at stop
  constructor
  case opens => exact opens
  case reads => exact ⟨_, result, FeatureTest.isClassified_ofBlock? block.content⟩
  case resumes =>
    rw [stop]
    exact ⟨rfl, Lexeme.blockContent_fills_or_runs .round block.start.rest⟩

theorem map_content_scannedBlocks (text : String) :
    (scannedBlocks text).map ScannedBlock.content =
      (Qualifier.take (Component.ofText text.toList)).2.filterMap Component.content? := by
  rw [scannedBlocks, Reader.map_content_blocks]
  exact (scanHead_eq text).2.2.2

theorem test?_of_mem_scannedBlocks {text : String} {block : ScannedBlock}
    (member : block ∈ scannedBlocks text) : block.test? = FeatureTest.ofBlock? block.content := by
  have isIn := (scanHead_eq text).1.isIn (.start text)
  rcases Reader.read_of_mem_blocks isIn member with ⟨_, isInBlock, result, _⟩
  rw [ScannedBlock.test?, result, Reader.nested_featureBlock isInBlock]
  rfl

/-- Reading token by token and reading components make the same query. -/
theorem ofString_eq_scan (text : String) : ofString text = scan text := by
  rcases scanHead_eq text with ⟨_, qualifier, mediaType, _⟩
  have tests : (scannedBlocks text).filterMap ScannedBlock.test? =
      (Qualifier.take (Component.ofText text.toList)).2.filterMap Component.test? := by
    calc (scannedBlocks text).filterMap ScannedBlock.test?
        = (scannedBlocks text).filterMap (FeatureTest.ofBlock? ∘ ScannedBlock.content) :=
          List.filterMap_congr fun block member => test?_of_mem_scannedBlocks member
      _ = ((scannedBlocks text).map ScannedBlock.content).filterMap FeatureTest.ofBlock? :=
          List.filterMap_map.symm
      _ = _ := by
          rw [map_content_scannedBlocks, List.filterMap_filterMap]
          rfl
  rw [scan, qualifier, mediaType, tests]
  rfl

/--
Reading a text token by token meets all the blocks in round brackets that are not within others,
reads each of them for exactly what it holds and makes them the tests of the query.
-/
theorem scannedBlocks_exact (text : String) :
    (scannedBlocks text).map ScannedBlock.content =
        (Component.ofText text.toList).filterMap Component.content? ∧
      (∀ block ∈ scannedBlocks text, block.IsExact text) ∧
      (ofString text).tests = (scannedBlocks text).filterMap ScannedBlock.test? ∧
      ofString text = scan text := by
  refine ⟨?_, fun block member => isExact_of_mem_scannedBlocks member, ?_, ofString_eq_scan text⟩
  · rw [map_content_scannedBlocks, Qualifier.filterMap_content?_take]
  · rw [ofString_eq_scan]
    rfl

/-- A test with a comment in its value, and a malformed one that is left open. -/
theorem scannedBlocks_exact_open :
    let text := "only tv and (max-width: 5px/*)*/) or (3 (width"
    ∃ first second, scannedBlocks text = [first, second] ∧ first.IsExact text ∧
      second.IsExact text ∧ (ofString text).tests =
        [.ofWritten "max-width" (some "5px/*)*/"), .malformed "3 (width"] := by
  intro text
  rcases scannedBlocks_exact text with ⟨contents, exact, _⟩
  have two : (scannedBlocks text).length = 2 := by
    rw [← @List.length_map _ _ (scannedBlocks text) ScannedBlock.content, contents]
    decide +kernel
  rcases List.length_eq_two.mp two with ⟨first, second, both⟩
  have each : ∀ block ∈ [first, second], block.IsExact text := both ▸ exact
  exact ⟨first, second, both, each first (by simp), each second (by simp), by decide +kernel⟩

end Query

end MediaQuery
