import MediaQuery.Proofs.Query.Comma
import MediaQuery.Proofs.Query.Printable

/-!
# Reading what is written

A query that can be written reads as itself again. The main statement is that the
queries of every text that closes all it opens, written one after the other, are
read as the same queries.
-/

namespace MediaQuery

open Text (Stops Gap)

namespace FeatureTest

theorem Printable.spells_render {test : FeatureTest} (printable : test.Printable) :
    (Part.test test).Spells test.render.toList := by
  cases printable with
  | named named small body =>
      rcases hasValue : test.value with _ | value
      · have spells := Part.spells_name named hasValue Gap.nil small Gap.nil
        have written : test.render.toList =
            '(' :: ([] ++ (test.writtenName.toList ++ []) ++ [')']) := by
          simp [render, hasValue]
        rwa [written]
      · have isBody := body value hasValue
        have spells := @Part.spells_value test test.writtenName.toList [] [] [' '] [] value.toList
          named (by rw [hasValue, String.ofList_toList]) isBody Gap.nil small Gap.nil
          (Gap.space (by decide) Gap.nil) (by simp)
        have written : test.render.toList = '(' :: ([] ++ (test.writtenName.toList ++
            ([] ++ ([':'] ++ ([' '] ++ (value.toList ++ []))))) ++ [')']) := by
          simp [render, hasValue]
        rwa [written]
  | @unnamed text body small other =>
      have spells := Part.spells_test body.fills (ofBlock?_malformed body other) fun after =>
        body.reads (@Text.apart_closing [] (by simp) after)
      have written : (malformed (String.ofList text)).render.toList = '(' :: (text ++ [')']) := by
        simp [render, malformed, writtenName, Bound.marker, small]
      rwa [written]

theorem render_ne (test : FeatureTest) : test.render ≠ "" := by
  unfold render
  split <;> simp

theorem Printable.noComma_render {test : FeatureTest} (printable : test.Printable) :
    ',' ∉ test.render.toList := by
  cases printable with
  | named named small body =>
      have noComma : ',' ∉ test.writtenName.toList := named.isWord.not_mem (by decide)
      rcases hasValue : test.value with _ | value
      · simp [render, hasValue, noComma]
      · simp [render, hasValue, noComma, (body value hasValue).noComma]
  | @unnamed text body small other =>
      simp [render, malformed, writtenName, Bound.marker, small, body.noComma]

end FeatureTest

namespace Part

/-- A part as it is written. -/
def render : Part → String
  | .word name => name
  | .test tested => tested.render

/-- A part that reads as itself where it is written. -/
inductive Printable : Part → Prop
  | word {name : String} (isWord : Name.IsWord name.toList)
      (small : Text.lower name.toList = name.toList) : Printable (.word name)
  | test {tested : FeatureTest} (printable : tested.Printable) : Printable (.test tested)

theorem Printable.spells_render {part : Part} (printable : part.Printable) :
    part.Spells part.render.toList := by
  cases printable with
  | word isWord small => exact spells_word isWord (by rw [small, String.ofList_toList])
  | test printable => exact printable.spells_render

theorem Printable.render_ne {part : Part} (printable : part.Printable) : part.render ≠ "" := by
  cases printable with
  | word isWord small =>
      rintro rfl
      exact isWord.ne_nil rfl
  | test printable => exact FeatureTest.render_ne _

theorem Printable.noComma_render {part : Part} (printable : part.Printable) :
    ',' ∉ part.render.toList := by
  cases printable with
  | word isWord small => exact isWord.not_mem (by decide)
  | test printable => exact printable.noComma_render

end Part

namespace Joined

theorem of_render {Writes : Part → List Char → Prop} {parts : List Part}
    (writes : ∀ part ∈ parts, Writes part part.render.toList) :
    Joined Writes parts (" ".intercalate (parts.map Part.render)).toList := by
  induction parts with
  | nil => exact nil
  | cons part rest ih =>
      have first := writes part (by simp)
      match rest with
      | [] =>
          have joined := last first Gap.nil
          simpa using joined
      | next :: rest =>
          have later := ih fun other member => writes other (List.mem_cons_of_mem _ member)
          have joined := cons first (Gap.space (by decide) Gap.nil) (List.cons_ne_nil ' ' []) later
          simpa using joined

end Joined

namespace Query

theorem qualifier_eq (query : Query) :
    query.qualifier = query.clause.qualifier.map Qualifier.name := by
  unfold qualifier clause
  split
  · rfl
  · split <;> rfl

/-- Linked tests are written with an `and` in front of them. -/
theorem intercalate_linked {tests : List FeatureTest} (nonempty : tests ≠ []) :
    " " ++ " ".intercalate ((Part.ofTests true tests).map Part.render) =
      " and " ++ " ".intercalate ((Part.ofTests false tests).map Part.render) := by
  rcases List.exists_cons_of_ne_nil nonempty with ⟨tested, rest, rfl⟩
  have linked : (Part.ofTests true (tested :: rest)).map Part.render =
      "and" :: (Part.ofTests false (tested :: rest)).map Part.render := rfl
  have later : (Part.ofTests false (tested :: rest)).map Part.render ≠ [] := List.cons_ne_nil _ _
  have link : " and " = " " ++ ("and" ++ " ") := by decide
  rw [linked, String.intercalate_cons_of_ne_nil later, link]
  simp only [String.append_assoc]

/-- Tests with an `and` between them are parts with single spaces between them. -/
theorem intercalate_and (tests : List FeatureTest) :
    " and ".intercalate (tests.map FeatureTest.render) =
      " ".intercalate ((Part.ofTests false tests).map Part.render) := by
  induction tests with
  | nil => rfl
  | cons tested rest ih =>
      match rest with
      | [] => simp [Part.ofTests, Part.render]
      | next :: rest =>
          have parts : (Part.ofTests false (tested :: next :: rest)).map Part.render =
              tested.render :: (Part.ofTests true (next :: rest)).map Part.render := rfl
          have later : (Part.ofTests true (next :: rest)).map Part.render ≠ [] :=
            List.cons_ne_nil _ _
          rw [List.map_cons, parts, String.intercalate_cons_of_ne_nil (by simp), ih,
            String.intercalate_cons_of_ne_nil later, String.append_assoc, String.append_assoc,
            intercalate_linked (List.cons_ne_nil next rest)]

theorem renderHead_eq (query : Query) :
    query.renderHead = " ".intercalate (query.clause.head.map Part.render) := by
  have words : query.qualifier.toList ++ (if query.writesType then [query.mediaType] else []) =
      query.clause.head.map Part.render := by
    rw [qualifier_eq, Clause.head, List.map_append]
    congr 1
    · rcases query.clause.qualifier with _ | qualifier <;> rfl
    · unfold clause
      split <;> rfl
  rw [renderHead, words]

theorem intercalate_ne {first : String} (nonempty : first ≠ "") (separator : String)
    (rest : List String) : separator.intercalate (first :: rest) ≠ "" := by
  cases rest with
  | nil => simpa using nonempty
  | cons second rest => simp [String.intercalate_cons_cons, nonempty]

theorem Printable.part {query : Query} (printable : query.Printable) :
    ∀ part ∈ query.clause.parts, part.Printable := by
  have word : ∀ name : String, Name.IsWord name.toList → Text.lower name.toList = name.toList →
      (Part.word name).Printable := fun _ => Part.Printable.word
  apply Clause.forall_mem_parts
  · exact word "only" (by decide) (by decide)
  · exact word "not" (by decide) (by decide)
  · exact word "and" (by decide) (by decide)
  · intro name member
    have same : query.mediaType = name := by
      have written : (if query.writesType then some query.mediaType else none) = some name := member
      split at written
      · exact Option.some.inj written
      · simp at written
    exact word name (same ▸ printable.type) (same ▸ printable.small)
  · exact fun tested member => Part.Printable.test (printable.tests tested member)

theorem Printable.renderHead_ne {query : Query} (printable : query.Printable)
    (written : query.clause.head ≠ []) : query.renderHead ≠ "" := by
  rcases List.exists_cons_of_ne_nil written with ⟨first, rest, head⟩
  have part := printable.part first (by simp [Clause.parts, head])
  rw [renderHead_eq, head]
  exact intercalate_ne part.render_ne " " _

theorem isSome_mediaType_of_head_ne {query : Query} (written : query.clause.head ≠ []) :
    query.clause.mediaType.isSome = true := by
  by_contra untyped
  have noType : query.clause.mediaType = none := by simpa using untyped
  have unwritten : query.writesType = false := by
    by_contra writes
    simp [clause, writes] at noType
  have unqualified : query.qualifier = none := by
    simp only [writesType, Bool.or_eq_false_iff] at unwritten
    simpa using unwritten.1.2
  rw [qualifier_eq, Option.map_eq_none_iff] at unqualified
  exact written (by rw [Clause.head, noType, unqualified]; rfl)

/-- A printable query is written as its parts with single spaces between them. -/
theorem Printable.render_eq {query : Query} (printable : query.Printable) :
    query.render = " ".intercalate (query.clause.parts.map Part.render) := by
  rw [render, Clause.parts, List.map_append]
  by_cases bare : query.clause.head = []
  · have noHead : query.renderHead = "" := by
      rw [renderHead_eq, bare]
      rfl
    have noType : query.clause.mediaType = none := by
      rw [Clause.head, List.append_eq_nil_iff] at bare
      simpa using bare.2
    rw [if_pos noHead, bare, noType, renderTests, intercalate_and]
    rfl
  · have typed := isSome_mediaType_of_head_ne bare
    rw [if_neg (printable.renderHead_ne bare), typed]
    rcases tests : query.tests with _ | ⟨tested, rest⟩
    · have noTests : query.renderTests = "" := by
        rw [renderTests, tests]
        rfl
      rw [if_pos noTests, renderHead_eq]
      simp [clause, tests, Part.ofTests]
    · have someTests : query.renderTests ≠ "" := by
        rw [renderTests, tests]
        exact intercalate_ne (FeatureTest.render_ne tested) _ _
      have nonempty : query.tests ≠ [] := by
        rw [tests]
        exact List.cons_ne_nil tested rest
      have written : (Part.ofTests true query.tests).map Part.render ≠ [] := by
        simp [tests, Part.ofTests]
      have same : query.clause.tests = query.tests := rfl
      rw [if_neg someTests, same, String.intercalate_append_of_ne_nil (by simpa using bare) written,
        renderHead_eq, renderTests, intercalate_and, String.append_assoc, String.append_assoc,
        intercalate_linked nonempty]

theorem Printable.ofText_render {query : Query} (printable : query.Printable) {gap : List Char}
    (isGap : Gap gap) : ofText (gap ++ query.render.toList) = query := by
  have joined : Joined Part.Spells query.clause.parts query.render.toList := by
    rw [printable.render_eq]
    exact Joined.of_render fun part member => (printable.part part member).spells_render
  rw [Clause.ofText_eq printable.ownType isGap joined, printable.toQuery_clause]

theorem Printable.noComma_render {query : Query} (printable : query.Printable) :
    ',' ∉ query.render.toList := by
  rw [printable.render_eq]
  have joined := @Joined.of_render (fun _ text => ',' ∉ text) _ fun part member =>
    (printable.part part member).noComma_render
  exact joined.not_mem fun _ _ _ noComma => noComma

end Query

namespace QueryList

theorem toList_render (first : Query) (rest : List Query) :
    (render (first :: rest)).toList =
      [','].intercalate
        (first.render.toList :: rest.map fun query => ' ' :: query.render.toList) := by
  rw [render, String.toList_intercalate]
  induction rest generalizing first with
  | nil => simp
  | cons second rest ih =>
      have later := ih second
      simp only [List.map_cons, List.intercalate_cons_cons] at later ⊢
      rw [later]
      simp [List.intercalate_cons_cons_left]

/-- Printable queries are read back from what they are written as. -/
theorem ofString_render_of_printable {list : QueryList} (nonempty : list ≠ [])
    (printable : ∀ query ∈ list, query.Printable) : ofString (render list) = list := by
  rcases List.exists_cons_of_ne_nil nonempty with ⟨first, rest, rfl⟩
  have head := printable first (by simp)
  have later : ∀ query ∈ rest, query.Printable := fun query member =>
    printable query (List.mem_cons_of_mem _ member)
  rw [ofString, toList_render, Text.splitAtCommas_intercalate (List.cons_ne_nil _ _)]
  · rw [List.map_cons, List.map_map]
    congr 1
    · exact @Query.Printable.ofText_render _ head [] Gap.nil
    · calc rest.map (Query.ofText ∘ fun query => ' ' :: query.render.toList)
          = rest.map id := List.map_congr_left fun query member =>
            @Query.Printable.ofText_render _ (later query member) [' ']
              (Gap.space (by decide) Gap.nil)
        _ = rest := List.map_id _
  · intro part member
    rcases List.mem_cons.mp member with rfl | behind
    · exact head.noComma_render
    · rcases List.mem_map.mp behind with ⟨query, among, rfl⟩
      simpa using (later query among).noComma_render

/--
The queries of a text that closes all it opens between each two commas are read
back from what they are written as, and so are written in the same way again.
-/
theorem ofString_render {text : String}
    (white : ∀ character ∈ text.toList,
      Text.isWhiteSpace character = true → Character.isSpace character = true)
    (closed : ∀ clause ∈ Text.splitAtCommas text.toList, Text.isClosed clause = true) :
    ofString (render (ofString text)) = ofString text ∧
      render (ofString (render (ofString text))) = render (ofString text) := by
  have again : ofString (render (ofString text)) = ofString text := by
    apply ofString_render_of_printable
    · simpa [ofString] using Text.splitAtCommas_ne_nil text.toList
    · intro query member
      rcases List.mem_map.mp member with ⟨clause, among, rfl⟩
      apply Query.printable_ofText (closed clause among) (Text.not_mem_of_mem_splitAtCommas among)
      intro character inside
      exact white character (Text.mem_of_mem_splitAtCommas among inside).1
  exact ⟨again, by rw [again]⟩

/-- A negated query and one with a malformed test are written and read again. -/
theorem ofString_render_negated :
    ofString (render (ofString "NOT tv and (min-width:1px/**/),(grid 1)")) =
        ofString "NOT tv and (min-width:1px/**/),(grid 1)" ∧
      render (ofString (render (ofString "NOT tv and (min-width:1px/**/),(grid 1)"))) =
        render (ofString "NOT tv and (min-width:1px/**/),(grid 1)") := by
  have white : ("NOT tv and (min-width:1px/**/),(grid 1)".toList.all fun character =>
      !Text.isWhiteSpace character || Character.isSpace character) = true := by decide
  refine ofString_render (fun character member isWhite => ?_) (by decide)
  simpa [isWhite] using List.all_eq_true.mp white character member

end QueryList

end MediaQuery
