import MediaQuery.Proofs.Cursor.Place
import MediaQuery.Proofs.Lexeme.Word

/-!
# Reading within a block

Inside a block a cursor yields tokens up to the bracket that closes the block, and goes past inner
blocks as a whole. What lies beyond the block is the same at every place that is reached in this
way, so leaving the block leads to the same place from all of them.
-/

namespace MediaQuery

namespace Token

theorem nest_append {token : Token} {inner : List Bracket} (nonempty : inner ≠ [])
    (outer : List Bracket) : token.nest (inner ++ outer) = token.nest inner ++ outer := by
  rcases List.exists_cons_of_ne_nil nonempty with ⟨bracket, others, rfl⟩
  cases token with
  | closing other => by_cases fits : bracket = other <;> simp [nest, fits]
  | _ => rfl

/-- In a block, a token opens what it opens, unless it closes the block. -/
theorem nest_singleton {token : Token} {bracket : Bracket} (other : token ≠ .closing bracket) :
    token.nest [bracket] = token.opens.toList ++ [bracket] := by
  cases token with
  | closing found =>
      have misfit : bracket ≠ found := fun same => other (by rw [same])
      simp [nest, misfit, Token.opens]
  | _ => rfl

end Token

namespace Lexeme

/-- What follows an outer block can be found by going past the inner blocks first. -/
theorem drop_blockContent_append {inner outer : List Bracket} (innerOpen : inner ≠ [])
    (outerOpen : outer ≠ []) (lexemes : List Lexeme) :
    lexemes.drop (blockContent (inner ++ outer) lexemes).length =
      (lexemes.drop ((blockContent inner lexemes).length + 1)).drop
        (blockContent outer (lexemes.drop ((blockContent inner lexemes).length + 1))).length := by
  induction lexemes generalizing inner with
  | nil => simp
  | cons lexeme rest ih =>
      rw [blockContent_cons, blockContent_cons, Token.nest_append innerOpen,
        if_neg (by simp [outerOpen])]
      by_cases closes : lexeme.token.nest inner = []
      · simp [closes]
      · simpa [closes] using ih closes

/-- A block is followed by the bracket that closes it, or it runs to the end. -/
theorem blockContent_fills_or_runs (bracket : Bracket) (lexemes : List Lexeme) :
    let content := blockContent [bracket] lexemes
    let behind := lexemes.drop (content.length + 1)
    (∃ closing, Fills bracket content ∧
        lexemes = content ++ ⟨.closing bracket, closing⟩ :: behind) ∨
      lexemes = content ∧ behind = [] := by
  intro content behind
  rcases blockContent_cases (List.cons_ne_nil bracket []) lexemes with
    runs | ⟨outermost, closing, rest, last, level, closed⟩
  · have whole : lexemes = content := runs.symm
    exact Or.inr ⟨whole, List.drop_eq_nil_of_le (by rw [← whole]; omega)⟩
  · have same : bracket = outermost := by simpa using last
    subst same
    have whole : lexemes = content ++ ⟨.closing bracket, closing⟩ :: rest := closed
    have after : behind = rest := by
      change lexemes.drop (content.length + 1) = rest
      rw [whole]
      simp
    refine Or.inl ⟨closing, ⟨blockContent_blockContent [bracket] lexemes, level⟩, ?_⟩
    rw [after]
    exact whole

theorem skipBlank_blockContent {brackets : List Bracket} (isOpen : brackets ≠ [])
    (lexemes : List Lexeme) :
    blockContent brackets (skipBlank lexemes) = skipBlank (blockContent brackets lexemes) ∧
      (skipBlank lexemes).drop (blockContent brackets (skipBlank lexemes)).length =
        lexemes.drop (blockContent brackets lexemes).length := by
  induction lexemes with
  | nil => exact ⟨rfl, rfl⟩
  | cons lexeme rest ih =>
      by_cases blank : lexeme.isBlank = true
      · have skips : ∀ others, skipBlank (lexeme :: others) = skipBlank others := by
          intro others
          simp [skipBlank, blank]
        rw [blockContent_cons, Token.nest_of_isBlank blank, if_neg isOpen, skips, skips]
        exact ih
      · have solid : lexeme.isBlank = false := by simpa using blank
        rw [skipBlank_cons solid]
        refine ⟨?_, rfl⟩
        rw [blockContent_cons]
        split
        · rfl
        · exact (skipBlank_cons solid _).symm

end Lexeme

namespace Cursor

/-- The next token of a block that is open, or nothing in front of the bracket that closes it. -/
def nextWithin (bracket : Bracket) (cursor : Cursor) : Option Lexeme × Cursor :=
  match cursor.settle.rest with
  | [] => (none, cursor.settle)
  | lexeme :: rest =>
      if lexeme.token = .closing bracket then
        (none, cursor.settle)
      else
        (some lexeme, { cursor with opened := lexeme.token.opens, rest })

/-- The place behind the bracket that closes a block, from a place within the block. -/
def leave (bracket : Bracket) (cursor : Cursor) : Cursor :=
  { cursor with
    opened := none
    rest := cursor.pastBlock.drop ((Lexeme.blockContent [bracket] cursor.pastBlock).length + 1) }

/-- The lexemes ahead within a block that is open. -/
def within (bracket : Bracket) (cursor : Cursor) : List Lexeme :=
  Lexeme.blockContent (cursor.opened.toList ++ [bracket]) cursor.rest

/-- The lexemes from the bracket that closes a block on. -/
def beyond (bracket : Bracket) (cursor : Cursor) : List Lexeme :=
  cursor.rest.drop (cursor.within bracket).length

variable (bracket : Bracket) (cursor : Cursor)

theorem beyond_eq_pastBlock :
    cursor.beyond bracket =
      cursor.pastBlock.drop (Lexeme.blockContent [bracket] cursor.pastBlock).length := by
  unfold beyond within pastBlock
  cases cursor.opened with
  | none => rfl
  | some inner =>
      exact Lexeme.drop_blockContent_append (List.cons_ne_nil inner [])
        (List.cons_ne_nil bracket []) cursor.rest

theorem beyond_settle : cursor.settle.beyond bracket = cursor.beyond bracket := by
  rw [beyond_eq_pastBlock bracket cursor]
  exact (Lexeme.skipBlank_blockContent (List.cons_ne_nil bracket []) cursor.pastBlock).2

theorem within_settle (passed : cursor.opened = none) :
    cursor.settle.within bracket = Lexeme.skipBlank (cursor.within bracket) := by
  have past : cursor.pastBlock = cursor.rest := by rw [pastBlock, passed]
  unfold within settle
  rw [past, passed]
  exact (Lexeme.skipBlank_blockContent (List.cons_ne_nil bracket []) cursor.rest).1

/-- Leaving a block leads behind the bracket that closes it. -/
theorem leave_rest : (cursor.leave bracket).rest = (cursor.beyond bracket).tail := by
  rw [beyond_eq_pastBlock, List.tail_drop]
  rfl

/-- The next token of a block, if there is one. What lies beyond the block stays the same. -/
theorem nextWithin_cases :
    (cursor.settle.within bracket = [] ∧ cursor.settle.rest = cursor.beyond bracket ∧
        cursor.nextWithin bracket = (none, cursor.settle)) ∨
      ∃ lexeme after, cursor.nextWithin bracket = (some lexeme, after) ∧
        cursor.settle.within bracket = lexeme :: after.within bracket ∧
        after.beyond bracket = cursor.beyond bracket ∧ after.opened = lexeme.token.opens ∧
        cursor.settle.rest = lexeme :: after.rest ∧ after.size = cursor.size := by
  rw [← beyond_settle]
  have content : cursor.settle.within bracket =
      Lexeme.blockContent [bracket] cursor.settle.rest := rfl
  have behind : cursor.settle.beyond bracket =
      cursor.settle.rest.drop (cursor.settle.within bracket).length := rfl
  unfold nextWithin
  rcases ahead : cursor.settle.rest with _ | ⟨lexeme, rest⟩
  · rw [content, behind, content, ahead]
    exact Or.inl ⟨rfl, rfl, rfl⟩
  · by_cases closes : lexeme.token = .closing bracket
    · left
      have nothing : cursor.settle.within bracket = [] := by
        rw [content, ahead, Lexeme.blockContent_cons, closes, Token.nest_closing, if_pos rfl]
      rw [behind, nothing, ahead]
      simp [closes]
    · right
      have goesOn : Lexeme.blockContent [bracket] (lexeme :: rest) =
          lexeme :: Lexeme.blockContent (lexeme.token.opens.toList ++ [bracket]) rest := by
        rw [Lexeme.blockContent_cons, Token.nest_singleton closes, if_neg (by simp)]
      refine ⟨lexeme, { cursor with opened := lexeme.token.opens, rest }, ?_, ?_, ?_, rfl, rfl, rfl⟩
      · simp [closes]
      · rw [content, ahead, goesOn]
        rfl
      · rw [behind, content, ahead, goesOn]
        rfl

theorem nextWithin_follows {lexeme : Lexeme} {after : Cursor}
    (next : cursor.nextWithin bracket = (some lexeme, after)) : after.Follows cursor := by
  rcases nextWithin_cases bracket cursor with ⟨_, _, nothing⟩ | ⟨_, _, found, _, _, _, rest, size⟩
  · rw [nothing] at next
    cases next
  · rw [found] at next
    rcases next with ⟨rfl, rfl⟩
    have settled := cursor.settle_rest_suffix
    rw [rest] at settled
    exact ⟨size, (List.suffix_cons _ _).trans settled⟩

theorem nextWithin_rest_lt {lexeme : Lexeme} {after : Cursor}
    (next : cursor.nextWithin bracket = (some lexeme, after)) :
    after.rest.length < cursor.rest.length := by
  have settled := cursor.settle_rest_suffix.length_le
  rcases nextWithin_cases bracket cursor with ⟨_, _, nothing⟩ | ⟨_, _, found, _, _, _, rest, _⟩
  · rw [nothing] at next
    cases next
  · rw [found] at next
    rcases next with ⟨rfl, rfl⟩
    rw [rest, List.length_cons] at settled
    omega

/-- The place in front of the bracket that closes a block, reached token by token. -/
def drain (bracket : Bracket) (cursor : Cursor) : Cursor :=
  match _ : cursor.nextWithin bracket with
  | (none, after) => after
  | (some _, after) => drain bracket after
termination_by cursor.rest.length
decreasing_by exact nextWithin_rest_lt bracket cursor ‹_›

theorem drain_eq :
    cursor.drain bracket = { cursor with opened := none, rest := cursor.beyond bracket } := by
  fun_induction drain bracket cursor with
  | case1 cursor after next =>
      rcases nextWithin_cases bracket cursor with ⟨_, rest, nothing⟩ | ⟨_, _, found, _⟩
      · rw [next, Prod.mk.injEq] at nothing
        rw [nothing.2, ← rest]
        rfl
      · rw [next] at found
        cases found
  | case2 cursor lexeme after next ih =>
      rcases nextWithin_cases bracket cursor with
        ⟨_, _, nothing⟩ | ⟨_, _, found, _, beyond, _, _, size⟩
      · rw [next] at nothing
        cases nothing
      · rw [next] at found
        rcases found with ⟨rfl, rfl⟩
        rw [ih, beyond, size]

/-- What is ahead is what is within a block and what is beyond it. -/
theorem within_append_beyond : cursor.within bracket ++ cursor.beyond bracket = cursor.rest := by
  have front : cursor.within bracket <+: cursor.rest := Lexeme.blockContent_isPrefix _ _
  have split := List.take_append_drop (cursor.within bracket).length cursor.rest
  rwa [← List.prefix_iff_eq_take.mp front] at split

/-- Nothing lies beyond a block, or the bracket that closes it comes first. -/
theorem beyond_cases : cursor.beyond bracket = [] ∨
    ∃ closing rest, cursor.beyond bracket = ⟨.closing bracket, closing⟩ :: rest := by
  have parts := within_append_beyond bracket cursor
  have nonempty : cursor.opened.toList ++ [bracket] ≠ [] := by simp
  rcases Lexeme.blockContent_cases nonempty cursor.rest with
    runs | ⟨outermost, closing, rest, last, _, closed⟩
  · left
    have whole : cursor.within bracket = cursor.rest := runs
    rw [whole] at parts
    exact List.append_right_eq_self.mp parts
  · right
    have same : bracket = outermost := by simpa using last
    subst same
    have whole : cursor.rest = cursor.within bracket ++ ⟨.closing bracket, closing⟩ :: rest :=
      closed
    rw [whole] at parts
    exact ⟨closing, rest, List.append_cancel_left parts⟩

theorem within_drain : (cursor.drain bracket).within bracket = [] := by
  have content : (cursor.drain bracket).within bracket =
      Lexeme.blockContent [bracket] (cursor.beyond bracket) := by rw [drain_eq]; rfl
  rw [content]
  rcases beyond_cases bracket cursor with nothing | ⟨closing, rest, closed⟩
  · rw [nothing]
    rfl
  · rw [closed, Lexeme.blockContent_cons, Token.nest_closing, if_pos rfl]

theorem beyond_drain : (cursor.drain bracket).beyond bracket = cursor.beyond bracket := by
  have rest : (cursor.drain bracket).rest = cursor.beyond bracket := by rw [drain_eq]
  rw [beyond, within_drain, rest]
  rfl

theorem nextWithin_fst_eq_none_iff (passed : cursor.opened = none) :
    (cursor.nextWithin bracket).1 = none ↔ Lexeme.skipBlank (cursor.within bracket) = [] := by
  rw [← within_settle bracket cursor passed]
  rcases nextWithin_cases bracket cursor with ⟨within, _, nothing⟩ | ⟨_, _, found, within, _⟩
  · simp [nothing, within]
  · simp [found, within]

theorem nextWithin_drain : ((cursor.drain bracket).nextWithin bracket).1 = none := by
  rw [nextWithin_fst_eq_none_iff _ _ (by rw [drain_eq]), within_drain]
  rfl

theorem follows_drain : (cursor.drain bracket).Follows cursor := by
  rw [drain_eq]
  exact ⟨rfl, List.drop_suffix _ _⟩

/-- The piece of a text between two places of it. -/
def slice (text : String) (start stop : Cursor) : List Char :=
  (Text.slice? start.position stop.position text.toList).getD []

/-- The bytes between two places are those of the lexemes between them. -/
theorem slice_eq {text : String} {start stop : Cursor} (isIn : start.IsIn text)
    (size : stop.size = start.size) {lexemes : List Lexeme}
    (rest : start.rest = lexemes ++ stop.rest) :
    slice text start stop = Lexeme.textOf lexemes := by
  have follows : stop.Follows start := ⟨size, ⟨lexemes, rest.symm⟩⟩
  rcases isIn.exists_front with ⟨front, whole, position⟩
  rcases (follows.isIn isIn).exists_front with ⟨frontOfStop, wholeOfStop, positionOfStop⟩
  rw [rest, Lexeme.textOf_append] at whole
  have fronts : frontOfStop = front ++ Lexeme.textOf lexemes := by
    apply List.append_cancel_right
    rw [← wholeOfStop, whole, List.append_assoc]
  rw [slice, position, positionOfStop, fronts, whole, Text.slice?_append, Option.getD_some]

end Cursor

end MediaQuery
