import MediaQuery.Proofs.Lexeme.Closed
import MediaQuery.Proofs.Lexeme.Nesting
import MediaQuery.Query.Component

/-!
# Rows of components

How the components of lexemes are put together: a token is one component and what
follows is read on its own, and a block is one component up to the bracket that
closes it.
-/

namespace MediaQuery

namespace Component

@[simp]
theorem ofLexemes_nil : ofLexemes [] = [] :=
  rfl

theorem ofLexemesFrom_eq (skip : Nat) (lexemes : List Lexeme) :
    ofLexemesFrom skip lexemes = ofLexemes (lexemes.drop skip) := by
  induction lexemes generalizing skip with
  | nil => simp [ofLexemesFrom, ofLexemes]
  | cons lexeme rest ih =>
      cases skip with
      | zero => rfl
      | succ skip => simpa [ofLexemesFrom] using ih skip

theorem ofLexemes_token {lexeme : Lexeme} (opens : lexeme.token.opens = none)
    (rest : List Lexeme) : ofLexemes (lexeme :: rest) = .token lexeme :: ofLexemes rest := by
  rw [ofLexemes, ofLexemesFrom, opens]
  rfl

theorem ofLexemes_block {lexeme : Lexeme} {bracket : Bracket}
    (opens : lexeme.token.opens = some bracket) (rest : List Lexeme) :
    ofLexemes (lexeme :: rest) =
      .block lexeme (Lexeme.blockContent [bracket] rest) ::
        ofLexemes (rest.drop ((Lexeme.blockContent [bracket] rest).length + 1)) := by
  rw [ofLexemes, ofLexemesFrom, opens]
  simp only [ofLexemesFrom_eq]

theorem ofLexemes_closedBlock {lexeme : Lexeme} {bracket : Bracket}
    (opens : lexeme.token.opens = some bracket) {content : List Lexeme}
    (fills : Lexeme.Fills bracket content) (text : List Char) (rest : List Lexeme) :
    ofLexemes (lexeme :: (content ++ ⟨.closing bracket, text⟩ :: rest)) =
      .block lexeme content :: ofLexemes rest := by
  rw [ofLexemes_block opens, fills.blockContent_append]
  simp

/--
Induction along the components of lexemes: a token is followed by all that is
left, a block by what is left behind it.
-/
theorem ofLexemes_induction {motive : List Lexeme → Prop} (nil : motive [])
    (token : ∀ lexeme rest, lexeme.token.opens = none → motive rest → motive (lexeme :: rest))
    (block : ∀ lexeme rest bracket, lexeme.token.opens = some bracket →
      motive (rest.drop ((Lexeme.blockContent [bracket] rest).length + 1)) →
        motive (lexeme :: rest))
    (lexemes : List Lexeme) : motive lexemes := by
  induction size : lexemes.length using Nat.strongRecOn generalizing lexemes with
  | ind size ih =>
      match lexemes with
      | [] => exact nil
      | lexeme :: rest =>
          rw [List.length_cons] at size
          rcases opens : lexeme.token.opens with _ | bracket
          · exact token lexeme rest opens (ih rest.length (by omega) rest rfl)
          · apply block lexeme rest bracket opens
            exact ih _ (by rw [List.length_drop]; omega) _ rfl

theorem mem_of_token_mem {lexemes : List Lexeme} {lexeme : Lexeme}
    (member : .token lexeme ∈ ofLexemes lexemes) : lexeme ∈ lexemes := by
  induction lexemes using ofLexemes_induction with
  | nil => simp at member
  | token first rest opens ih =>
      rw [ofLexemes_token opens, List.mem_cons, token.injEq] at member
      exact List.mem_cons.mpr (member.imp_right ih)
  | block first rest bracket opens ih =>
      rw [ofLexemes_block opens, List.mem_cons] at member
      rcases member with impossible | later
      · simp at impossible
      · exact List.mem_cons_of_mem _ (List.mem_of_mem_drop (ih later))

theorem infix_of_block_mem {lexemes : List Lexeme} {opener : Lexeme} {content : List Lexeme}
    (member : .block opener content ∈ ofLexemes lexemes) : content <:+: lexemes := by
  induction lexemes using ofLexemes_induction with
  | nil => simp at member
  | token first rest opens ih =>
      rw [ofLexemes_token opens, List.mem_cons] at member
      rcases member with impossible | later
      · simp at impossible
      · exact (ih later).trans (List.suffix_cons first rest).isInfix
  | block first rest bracket opens ih =>
      rw [ofLexemes_block opens, List.mem_cons, block.injEq] at member
      rcases member with ⟨_, rfl⟩ | later
      · exact (Lexeme.blockContent_isPrefix _ rest).isInfix.trans
          (List.suffix_cons first rest).isInfix
      · have behind : rest <:+ first :: rest := List.suffix_cons first rest
        exact (ih later).trans ((List.drop_suffix _ rest).trans behind).isInfix

/-- A component that is a name stands among the lexemes. -/
theorem exists_ident_of_name? {text : List Char} {component : Component}
    (member : component ∈ ofText text) {name : List Char} (isName : component.name? = some name) :
    ∃ spelled, ⟨.ident name, spelled⟩ ∈ Lexeme.ofText text := by
  unfold name? at isName
  split at isName
  · rename_i found spelled
    rw [← Option.some.inj isName]
    exact ⟨spelled, mem_of_token_mem (List.mem_filter.mp member).1⟩
  · simp at isName

/--
In lexemes that close all the brackets they open, every block is followed by the
bracket that closes it.
-/
theorem exists_closing_of_mem {lexemes : List Lexeme} (level : Lexeme.nestAll [] lexemes = [])
    {opener : Lexeme} {content : List Lexeme}
    (member : .block opener content ∈ ofLexemes lexemes) :
    ∃ bracket front text back, opener.token.opens = some bracket ∧
      Lexeme.Fills bracket content ∧
      lexemes = front ++ opener :: (content ++ ⟨.closing bracket, text⟩ :: back) := by
  have balanced := Lexeme.balanced_of_level level
  clear level
  induction balanced with
  | nil => simp at member
  | @token lexeme rest opens _ ih =>
      rw [ofLexemes_token opens, List.mem_cons] at member
      rcases member with impossible | later
      · simp at impossible
      · rcases ih later with ⟨bracket, front, text, back, opened, fills, parts⟩
        exact ⟨bracket, lexeme :: front, text, back, opened, fills, by rw [parts]; rfl⟩
  | @block lexeme bracket found rest text opens foundFills _ ih =>
      rw [ofLexemes_closedBlock opens foundFills, List.mem_cons, block.injEq] at member
      rcases member with ⟨rfl, rfl⟩ | later
      · exact ⟨bracket, [], text, rest, opens, foundFills, rfl⟩
      · rcases ih later with ⟨inner, front, text', back, opened, fills, parts⟩
        refine ⟨inner, lexeme :: (found ++ ⟨.closing bracket, text⟩ :: front), text', back,
          opened, fills, ?_⟩
        rw [parts]
        simp

/-- Lexemes that close all the brackets they open are read apart from what follows. -/
theorem ofLexemes_append {front : List Lexeme} (level : Lexeme.nestAll [] front = [])
    (back : List Lexeme) : ofLexemes (front ++ back) = ofLexemes front ++ ofLexemes back := by
  have balanced := Lexeme.balanced_of_level level
  clear level
  induction balanced with
  | nil => rfl
  | token opens _ ih =>
      rw [List.cons_append, ofLexemes_token opens, ofLexemes_token opens, ih, List.cons_append]
  | block opens fills _ ih =>
      rw [List.cons_append, List.append_assoc, List.cons_append,
        ofLexemes_closedBlock opens fills, ofLexemes_closedBlock opens fills, ih,
        List.cons_append]

theorem ofLexemes_of_isBlank {lexemes : List Lexeme}
    (blank : ∀ lexeme ∈ lexemes, lexeme.isBlank = true) :
    ofLexemes lexemes = lexemes.map token := by
  induction lexemes with
  | nil => rfl
  | cons lexeme rest ih =>
      have opens : lexeme.token.opens = none := Token.opens_of_isBlank (blank lexeme (by simp))
      rw [ofLexemes_token opens, List.map_cons,
        ih fun other member => blank other (List.mem_cons_of_mem _ member)]

/-- The components of a text that closes all the brackets it opens come before all others. -/
theorem ofText_append_of_reads {text after : List Char} {lexemes : List Lexeme}
    (reads : Lexeme.Reads text lexemes after) (level : Lexeme.nestAll [] lexemes = []) :
    ofText (text ++ after) =
      (ofLexemes lexemes).filter (fun component => !component.isBlank) ++ ofText after := by
  rw [ofText, reads, ofLexemes_append level, List.filter_append]
  rfl

/-- Lexemes that only separate others do not show among the components. -/
theorem ofText_append_of_isBlank {text after : List Char} {lexemes : List Lexeme}
    (reads : Lexeme.Reads text lexemes after) (blank : ∀ lexeme ∈ lexemes, lexeme.isBlank = true) :
    ofText (text ++ after) = ofText after := by
  rw [ofText_append_of_reads reads (Lexeme.nestAll_of_isBlank blank []),
    ofLexemes_of_isBlank blank]
  have none : (lexemes.map token).filter (fun component => !component.isBlank) = [] := by
    apply List.filter_eq_nil_iff.mpr
    intro component member
    rcases List.mem_map.mp member with ⟨lexeme, among, rfl⟩
    simp [isBlank, blank lexeme among]
  rw [none, List.nil_append]

end Component

end MediaQuery
