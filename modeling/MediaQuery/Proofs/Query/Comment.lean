import MediaQuery.Proofs.Feature.Comment
import MediaQuery.Proofs.Query.Comma
import MediaQuery.Proofs.Query.Connective
import MediaQuery.Proofs.Query.Evaluation

/-!
# Comments in a query

A comment between two tokens of a query makes no difference, neither to the tokens around it
nor to the block that it stands in, except where a text that is kept as it is written shows
it: in a keyword, in an address or a string that has not ended, and between a value and white
space that does not separate tokens.
-/

namespace MediaQuery

namespace Lexeme

/--
Lexemes that leave a block open are those in front of it, the one that opens it and what the
block holds so far.
-/
theorem exists_opener_of_level {lexemes : List Lexeme} (level : nestAll [] lexemes ≠ []) :
    ∃ front opener bracket inside, lexemes = front ++ opener :: inside ∧
      nestAll [] front = [] ∧ opener.token.opens = some bracket ∧
      blockContent [bracket] inside = inside := by
  induction lexemes using Component.ofLexemes_induction with
  | nil => exact absurd rfl level
  | token lexeme rest opens ih =>
      have outside := Token.nest_nil_of_opens_eq_none opens
      rw [nestAll_cons, outside] at level
      rcases ih level with ⟨front, opener, bracket, inside, rfl, closed, opened, content⟩
      refine ⟨lexeme :: front, opener, bracket, inside, rfl, ?_, opened, content⟩
      rw [nestAll_cons, outside, closed]
  | block lexeme rest bracket opens ih =>
      have entered := Token.nest_of_opens opens []
      rcases blockContent_cases (List.cons_ne_nil bracket []) rest with
        whole | ⟨closer, text, behind, last, within, parts⟩
      · exact ⟨[], lexeme, bracket, rest, rfl, rfl, opens, whole⟩
      · have outermost : closer = bracket := by simpa [eq_comm] using last
        subst outermost
        generalize blockContent [closer] rest = block at *
        subst parts
        have dropped : (block ++ ⟨.closing closer, text⟩ :: behind).drop (block.length + 1) =
            behind := by simp
        have back : nestAll [] behind ≠ [] := by
          rwa [nestAll_cons, entered, nestAll_append, within, nestAll_cons,
            Token.nest_closing] at level
        rw [dropped] at ih
        rcases ih back with ⟨front, opener, inner, inside, rfl, closed, opened, kept⟩
        refine ⟨lexeme :: (block ++ ⟨.closing closer, text⟩ :: front), opener, inner, inside,
          by simp, ?_, opened, kept⟩
        rw [nestAll_cons, entered, nestAll_append, within, nestAll_cons, Token.nest_closing, closed]

end Lexeme

namespace Component

/-- What the round bracket that lexemes leave open holds so far, if no name touches it. -/
def openContent? (lexemes : List Lexeme) : Option (List Lexeme) :=
  if Lexeme.nestAll [] lexemes = [] then none
  else (ofLexemes lexemes).getLast?.bind content?

variable {lexemes : List Lexeme} {body : List Char}

theorem openContent?_of_append {front inside : List Lexeme} {opener : Lexeme} {bracket : Bracket}
    (closed : Lexeme.nestAll [] front = []) (opens : opener.token.opens = some bracket)
    (kept : Lexeme.blockContent [bracket] inside = inside) :
    openContent? (front ++ opener :: inside) = content? (.block opener inside) := by
  have level : Lexeme.nestAll [] (front ++ opener :: inside) ≠ [] := by
    rw [Lexeme.nestAll_append, closed, Lexeme.nestAll_cons, Token.nest_of_opens opens, ← kept]
    exact Lexeme.nestAll_blockContent_ne_nil (List.cons_ne_nil bracket []) inside
  have components : ofLexemes (front ++ opener :: inside) =
      ofLexemes front ++ [.block opener inside] := by
    rw [ofLexemes_append closed, ofLexemes_block opens, kept, List.drop_eq_nil_of_le (by omega)]
    rfl
  rw [openContent?, if_neg level, components, List.getLast?_concat, Option.bind_some]

/-- Lexemes that come behind an open block go on in it up to the bracket that closes it. -/
theorem ofLexemes_append_of_open {front inside : List Lexeme} {opener : Lexeme}
    {bracket : Bracket} (closed : Lexeme.nestAll [] front = [])
    (opens : opener.token.opens = some bracket)
    (kept : Lexeme.blockContent [bracket] inside = inside) (back : List Lexeme) :
    let ahead := Lexeme.blockContent (Lexeme.nestAll [bracket] inside) back
    ofLexemes (front ++ opener :: inside ++ back) =
      ofLexemes front ++ .block opener (inside ++ ahead) ::
        ofLexemes (back.drop (ahead.length + 1)) := by
  intro ahead
  have dropped : (inside ++ back).drop ((inside ++ ahead).length + 1) =
      back.drop (ahead.length + 1) := by
    rw [List.length_append, Nat.add_assoc, List.drop_length_add_append]
  rw [List.append_assoc, List.cons_append, ofLexemes_append closed, ofLexemes_block opens,
    Lexeme.blockContent_append kept, dropped]

end Component

namespace Query

variable {left right : List Component} {component other : Component}
variable {environment : Environment} {options : MatchOptions}

/-- A component that is no name adds its test to a query and changes nothing else in it. -/
theorem ofComponents_of_nameless (nameless : component.name? = none) :
    ofComponents (left ++ component :: right) =
      { ofComponents left with
        tests := (left ++ component :: right).filterMap Component.test? } := by
  have taken : Qualifier.take (left ++ component :: right) =
      ((Qualifier.take left).1, (Qualifier.take left).2 ++ component :: right) := by
    apply Qualifier.take_append
    intro front member
    have same : component = front := by simpa using member
    rw [← same, nameless]
    rfl
  have untyped : leadingType? (component :: right) = none := by simp [leadingType?, nameless]
  simp only [ofComponents_eq, taken, leadingType?_append untyped]

/-- Of a component that is no name, it only counts whether its test holds. -/
theorem evaluate_ofComponents_congr (nameless : component.name? = none)
    (otherNameless : other.name? = none)
    (tests : (component.test?.all fun test => test.evaluate environment options) =
      other.test?.all fun test => test.evaluate environment options) :
    (ofComponents (left ++ component :: right)).evaluate environment options =
      (ofComponents (left ++ other :: right)).evaluate environment options := by
  have all : ∀ middle : Component,
      ((left ++ middle :: right).filterMap Component.test?).all
          (fun test => test.evaluate environment options) =
        ((left.filterMap Component.test?).all (fun test => test.evaluate environment options) &&
          ((middle.test?.all fun test => test.evaluate environment options) &&
            (right.filterMap Component.test?).all fun test =>
              test.evaluate environment options)) := by
    intro middle
    rw [List.filterMap_append, List.all_append, List.filterMap_cons]
    cases middle.test? <;> simp
  rw [ofComponents_of_nameless nameless, ofComponents_of_nameless otherNameless]
  simp only [evaluate, matchesType, all, tests]

end Query

namespace Component

variable {lexemes : List Lexeme} {after body : List Char}

/-- Where no block is open, a comment is a component of its own, which means nothing. -/
theorem filter_ofLexemes_comment (level : Lexeme.nestAll [] lexemes = []) (back : List Lexeme) :
    (ofLexemes (lexemes ++ Lexeme.comment body :: back)).filter (fun part => !part.isBlank) =
      (ofLexemes (lexemes ++ back)).filter fun part => !part.isBlank := by
  rw [ofLexemes_append level, ofLexemes_append level, ofLexemes_token rfl, List.filter_append,
    List.filter_append]
  rfl

/-- A comment in an open block is part of what the block holds. -/
theorem ofLexemes_comment_of_open {front inside : List Lexeme} {opener : Lexeme}
    {bracket : Bracket} (closed : Lexeme.nestAll [] front = [])
    (opens : opener.token.opens = some bracket)
    (kept : Lexeme.blockContent [bracket] inside = inside) (back : List Lexeme) :
    let ahead := Lexeme.blockContent (Lexeme.nestAll [bracket] inside) back
    ofLexemes (front ++ opener :: inside ++ Lexeme.comment body :: back) =
      ofLexemes front ++ .block opener (inside ++ Lexeme.comment body :: ahead) ::
        ofLexemes (back.drop (ahead.length + 1)) := by
  intro ahead
  have stays : Lexeme.nestAll [bracket] inside ≠ [] := by
    rw [← kept]
    exact Lexeme.nestAll_blockContent_ne_nil (List.cons_ne_nil bracket []) inside
  have content : Lexeme.blockContent (Lexeme.nestAll [bracket] inside)
      (Lexeme.comment body :: back) = Lexeme.comment body :: ahead := by
    rw [Lexeme.blockContent_cons, Token.nest_of_isBlank rfl, if_neg stays]
  rw [ofLexemes_append_of_open closed opens kept, content, List.length_cons, List.drop_succ_cons]

/-- A comment that a block admits leaves alone whether the test of the block, if any, holds. -/
theorem all_test?_comment {inside : List Lexeme} {opener : Lexeme} {bracket : Bracket}
    {environment : Environment} {options : MatchOptions}
    (opens : opener.token.opens = some bracket) (gap : Lexeme.Gap inside after)
    (admits : ∀ held ∈ content? (.block opener inside), FeatureTest.AdmitsComment held
      (Lexeme.blockContent (Lexeme.nestAll [.round] held) (Lexeme.ofText after)))
    (noEnd : ¬ ['*', '/'] <:+: body) :
    let ahead := Lexeme.blockContent (Lexeme.nestAll [bracket] inside) (Lexeme.ofText after)
    ((test? (.block opener (inside ++ Lexeme.comment body :: ahead))).all fun test =>
        test.evaluate environment options) =
      (test? (.block opener (inside ++ ahead))).all fun test =>
        test.evaluate environment options := by
  intro ahead
  rw [content?_block] at admits
  rw [test?, test?, content?_block, content?_block]
  by_cases round : opener.token = .opening .round
  · have same : bracket = .round := by
      rw [round] at opens
      exact (Option.some.inj opens).symm
    subst same
    rw [if_pos round] at admits
    rw [if_pos round, if_pos round]
    rcases Lexeme.blockContent_isPrefix (Lexeme.nestAll [.round] inside) (Lexeme.ofText after) with
      ⟨rest, parts⟩
    have split : after = Lexeme.textOf ahead ++ Lexeme.textOf rest := by
      rw [← Lexeme.textOf_append, parts, Lexeme.textOf_ofText]
    exact FeatureTest.evaluate_ofBlock?_comment (split ▸ gap) (admits inside rfl) noEnd
  · rw [if_neg round, if_neg round]

end Component

namespace Query

open Lexeme (Gap)

variable {lexemes : List Lexeme} {after body : List Char}
variable {environment : Environment} {options : MatchOptions}

/--
A comment in a place of a query does not change whether the query holds, if the block that
the place is in admits it.
-/
theorem evaluate_ofText_comment (gap : Gap lexemes after)
    (admits : ∀ inside ∈ Component.openContent? lexemes, FeatureTest.AdmitsComment inside
      (Lexeme.blockContent (Lexeme.nestAll [.round] inside) (Lexeme.ofText after)))
    (noEnd : ¬ ['*', '/'] <:+: body) :
    (ofText (Lexeme.textOf lexemes ++ ((Lexeme.comment body).text ++ after))).evaluate
        environment options =
      (ofText (Lexeme.textOf lexemes ++ after)).evaluate environment options := by
  rw [ofText, ofText, Component.ofText, Component.ofText, gap.ofText_comment noEnd, gap.reads]
  by_cases level : Lexeme.nestAll [] lexemes = []
  · rw [Component.filter_ofLexemes_comment level]
  rcases Lexeme.exists_opener_of_level level with
    ⟨front, opener, bracket, inside, rfl, closed, opens, kept⟩
  rw [Component.ofLexemes_comment_of_open closed opens kept,
    Component.ofLexemes_append_of_open closed opens kept, List.filter_append, List.filter_append,
    List.filter_cons_of_pos rfl, List.filter_cons_of_pos rfl]
  apply evaluate_ofComponents_congr rfl rfl
  apply Component.all_test?_comment opens
  · rw [List.append_cons] at gap
    exact gap.of_append
  · rwa [Component.openContent?_of_append closed opens kept] at admits
  · exact noEnd

end Query

namespace QueryList

open Lexeme (Gap)

/--
A closed comment without a comma makes no difference between two tokens of a query, with any
values and options. `before` and `after` are the text in front of the comment and behind it,
and `lexemes` and `right` are what the query of the comment has of each. The lexemes must not
end in a string that a newline cuts off, nor in `url(` and spaces. In a block that becomes a
test, the comment must not stand behind the beginning of a keyword, nor next to white space that
does not separate tokens and would be taken away from the value or the block.
-/
theorem evaluateText_comment {before after : String} {body right : List Char}
    {lexemes : List Lexeme}
    (last : (Text.splitAtCommas before.toList).getLast? = some (Lexeme.textOf lexemes))
    (first : (Text.splitAtCommas after.toList).head? = some right) (gap : Gap lexemes right)
    (admits : ∀ inside ∈ Component.openContent? lexemes, FeatureTest.AdmitsComment inside
      (Lexeme.blockContent (Lexeme.nestAll [.round] inside) (Lexeme.ofText right)))
    (noEnd : ¬ ['*', '/'] <:+: body) (noComma : ',' ∉ body) (environment : Environment)
    (options : MatchOptions) :
    evaluateText (before ++ String.ofList (Lexeme.comment body).text ++ after) environment options =
      evaluateText (before ++ after) environment options := by
  rcases Text.exists_splitAtCommas_between last first with ⟨front, back, parts⟩
  have noCommaText : ',' ∉ (Lexeme.comment body).text := by
    simpa [Lexeme.comment] using noComma
  have commented := parts (Lexeme.comment body).text noCommaText
  have plain := parts [] (by simp)
  have whole : (before ++ String.ofList (Lexeme.comment body).text ++ after).toList =
      before.toList ++ ((Lexeme.comment body).text ++ after.toList) := by simp
  have wholePlain : (before ++ after).toList = before.toList ++ ([] ++ after.toList) := by simp
  have same := @Query.evaluate_ofText_comment lexemes right body environment options gap admits
    noEnd
  rw [evaluateText, evaluateText, ofString, ofString, whole, wholePlain, commented, plain]
  simp only [List.map_append, List.map_cons, evaluate, List.any_append, List.any_cons, same,
    List.nil_append]

/-- A ratio that a comment parts, in a negated query between two others. -/
theorem evaluateText_comment_ratio :
    let before := "tv, not (aspect-ratio: 16"
    let after := " / 9), (color"
    let environment := Environment.ofList [("type", .text "print"), ("aspect-ratio", .number 2)]
    ∀ options,
      evaluateText (before ++ "/* ' ( **/" ++ after) environment options =
        evaluateText (before ++ after) environment options := by
  intro before after environment options
  have body : (Lexeme.comment " ' ( *".toList).text = "/* ' ( **/".toList := by decide
  have gap : Gap (Lexeme.ofText " not (aspect-ratio: 16".toList) " / 9)".toList := by decide
  have admits : ∀ inside ∈ Component.openContent? (Lexeme.ofText " not (aspect-ratio: 16".toList),
      FeatureTest.AdmitsComment inside (Lexeme.blockContent (Lexeme.nestAll [.round] inside)
        (Lexeme.ofText " / 9)".toList)) := by
    decide +kernel
  have same := @evaluateText_comment before after " ' ( *".toList _ _ (by decide +kernel)
    (by decide +kernel) gap admits (by decide +kernel) (by decide) environment options
  rwa [body, String.ofList_toList] at same

/-- Whether a comment behind the first lexemes of a query changes whether the query holds. -/
def ShowsComment (query : String) (count : Nat) (body : String) (environment : Environment) :
    Prop :=
  let lexemes := Lexeme.ofText query.toList
  0 < count ∧ count < lexemes.length ∧ '\\' ∉ query.toList ∧ ',' ∉ query.toList ++ body.toList ∧
    ¬ ['*', '/'] <:+: body.toList ∧
    evaluateText (String.ofList (Lexeme.textOf
        (lexemes.take count ++ Lexeme.comment body.toList :: lexemes.drop count))) environment {} ≠
      evaluateText query environment {}

/--
A comment does show in what is kept as it is written: in a keyword, behind `url(`, behind a
string that a newline cuts off, and next to white space that does not separate tokens, be it all
of a block or a value, or behind a value or in front of one.
-/
theorem showsComment_kept :
    ShowsComment "(orientation: portrait)" 5 ""
        (Environment.ofList [("orientation", .text "portrait")]) ∧
      ShowsComment "url(\")(width\")" 1 "" Environment.empty ∧
      ShowsComment "\"a\n" 1 "\"(width)" Environment.empty ∧
      ShowsComment "(\x0b)" 2 "" Environment.empty ∧
      ShowsComment "(width:\x0b)" 4 "" (Environment.ofList [("width", .number 800)]) ∧
      ShowsComment "(width: 5\x0b)" 6 "" (Environment.ofList [("width", .number 5)]) ∧
      ShowsComment "(width:\u00a05.5)" 4 "" (Environment.ofList [("width", .number 5.5)]) := by
  refine ⟨?_, ?_, ?_, ?_, ?_, ?_, ?_⟩ <;> unfold ShowsComment <;> decide +kernel

end QueryList

end MediaQuery
