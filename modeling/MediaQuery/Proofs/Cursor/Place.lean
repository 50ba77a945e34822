import MediaQuery.Cursor
import MediaQuery.Proofs.Lexeme.Spelling
import MediaQuery.Proofs.Text.Bytes

/-!
# Places in a text

The places that a cursor comes to lie between the lexemes of its text, so the bytes in front of
them never end within a character. Reading a token leads to a place behind it.
-/

namespace MediaQuery

namespace Cursor

/-- A place between two lexemes of a text. -/
structure IsIn (text : String) (cursor : Cursor) : Prop where
  size : cursor.size = (start text).size
  rest : cursor.rest <:+ (start text).rest

variable {text : String} {before after : Cursor}

namespace IsIn

theorem start (text : String) : (Cursor.start text).IsIn text where
  size := rfl
  rest := List.suffix_refl _

/-- What is ahead of a place is a lexeme of the text. -/
theorem mem_of_ahead (isIn : before.IsIn text) {lexeme : Lexeme} {rest : List Lexeme}
    (ahead : before.settle.rest = lexeme :: rest) : lexeme ∈ Lexeme.ofText text.toList := by
  apply (before.settle_rest_suffix.trans isIn.rest).subset
  rw [ahead]
  exact List.mem_cons_self

/-- A place parts a text in two. -/
theorem exists_front (isIn : before.IsIn text) :
    ∃ front, text.toList = front ++ Lexeme.textOf before.rest ∧
      before.position = Text.byteLength front := by
  rcases isIn.rest with ⟨lexemes, parts⟩
  have whole := Lexeme.textOf_ofText text.toList
  change lexemes ++ before.rest = Lexeme.ofText text.toList at parts
  rw [← parts, Lexeme.textOf_append] at whole
  refine ⟨Lexeme.textOf lexemes, whole.symm, ?_⟩
  rw [position, isIn.size, Cursor.start, ← whole, Text.byteLength_append]
  exact Nat.add_sub_cancel ..

theorem position_add (isIn : before.IsIn text) :
    before.position + Text.byteLength (Lexeme.textOf before.rest) = text.utf8ByteSize := by
  rcases isIn.exists_front with ⟨front, whole, position⟩
  rw [position, ← Text.byteLength_append, ← whole, Text.byteLength_eq_utf8ByteSize,
    String.ofList_toList]

/-- A place is never within a character. -/
theorem isValid_position (isIn : before.IsIn text) :
    String.Pos.Raw.IsValid text ⟨before.position⟩ := by
  rcases isIn.exists_front with ⟨front, whole, position⟩
  have parts : text = String.ofList front ++ String.ofList (Lexeme.textOf before.rest) := by
    rw [← String.ofList_append, ← whole, String.ofList_toList]
  have boundary : String.Pos.Raw.IsValid (String.ofList front) ⟨before.position⟩ := by
    rw [position, Text.byteLength_eq_utf8ByteSize]
    exact String.Pos.Raw.isValid_rawEndPos
  rw [parts]
  exact boundary.append_right _

end IsIn

/-- Whether a place follows another one of the same text, or is the same place. -/
structure Follows (after before : Cursor) : Prop where
  size : after.size = before.size
  rest : after.rest <:+ before.rest

/-- Whether a place lies behind the next token ahead of another one. -/
structure Passes (after before : Cursor) : Prop where
  size : after.size = before.size
  rest : ∃ lexeme rest, before.settle.rest = lexeme :: rest ∧ after.rest <:+ rest

theorem Follows.refl (cursor : Cursor) : cursor.Follows cursor where
  size := rfl
  rest := List.suffix_refl _

theorem Follows.trans {between : Cursor} (second : after.Follows between)
    (first : between.Follows before) : after.Follows before where
  size := second.size.trans first.size
  rest := second.rest.trans first.rest

theorem Follows.isIn (follows : after.Follows before) (isIn : before.IsIn text) :
    after.IsIn text where
  size := follows.size.trans isIn.size
  rest := follows.rest.trans isIn.rest

theorem Passes.follows (passes : after.Passes before) : after.Follows before where
  size := passes.size
  rest := by
    rcases passes.rest with ⟨lexeme, rest, ahead, behind⟩
    have settled := before.settle_rest_suffix
    rw [ahead] at settled
    exact behind.trans ((List.suffix_cons lexeme rest).trans settled)

theorem Passes.trans_follows {between : Cursor} (first : between.Passes before)
    (second : after.Follows between) : after.Passes before where
  size := second.size.trans first.size
  rest := by
    rcases first.rest with ⟨lexeme, rest, ahead, behind⟩
    exact ⟨lexeme, rest, ahead, second.rest.trans behind⟩

theorem follows_settle (cursor : Cursor) : cursor.settle.Follows cursor where
  size := rfl
  rest := cursor.settle_rest_suffix

theorem position_mono (isIn : before.IsIn text) (follows : after.Follows before) :
    before.position ≤ after.position := by
  have behind := isIn.position_add
  have ahead := (follows.isIn isIn).position_add
  rcases follows.rest with ⟨passed, parts⟩
  rw [← parts, Lexeme.textOf_append, Text.byteLength_append] at behind
  omega

/-- A token takes at least one byte. -/
theorem position_lt (isIn : before.IsIn text) (passes : after.Passes before) :
    before.position < after.position := by
  have behind := isIn.position_add
  have ahead := (passes.follows.isIn isIn).position_add
  rcases passes.rest with ⟨lexeme, rest, settled, ⟨passed, parts⟩⟩
  rcases before.settle_rest_suffix with ⟨skipped, whole⟩
  have member := isIn.mem_of_ahead settled
  have width := Text.byteLength_pos (Lexeme.text_ne_nil_of_mem_ofText member)
  rw [← whole, settled, ← parts] at behind
  simp only [Lexeme.textOf_append, Lexeme.textOf_cons, Text.byteLength_append] at behind
  omega

/-- The next token is passed, or none is left and the place is the end. -/
theorem passes_or_ended (cursor : Cursor) :
    (∃ lexeme after, cursor.next = (some lexeme, after) ∧ after.Passes cursor) ∨
      cursor.settle.rest = [] ∧ cursor.next = (none, cursor.settle) := by
  unfold next
  rcases ahead : cursor.settle.rest with _ | ⟨lexeme, rest⟩
  · exact Or.inr ⟨rfl, rfl⟩
  · exact Or.inl ⟨lexeme, _, rfl, rfl, lexeme, rest, ahead, List.suffix_refl _⟩

theorem exhausted_iff_settle (cursor : Cursor) :
    cursor.exhausted = true ↔ cursor.settle.rest = [] := by
  rw [exhausted, List.isEmpty_iff]

theorem exhausted_iff_forall (cursor : Cursor) :
    cursor.exhausted = true ↔ ∀ lexeme ∈ cursor.pastBlock, lexeme.isBlank = true := by
  rw [exhausted_iff_settle]
  exact List.dropWhile_eq_nil_iff

end Cursor

end MediaQuery
