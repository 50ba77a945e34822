import MediaQuery.Lexeme.Scan

/-!
# Reading tokens one after another

A cursor stands between two lexemes of a text. It passes over spaces and
comments, and a reader that meets the opening of a block and asks for the next
token gets the one after the whole block.
-/

namespace MediaQuery

/--
A place in a text: the length of the whole text in bytes, the block whose opening
was read last and is not yet passed, and the lexemes ahead.
-/
structure Cursor where
  size : Nat
  opened : Option Bracket
  rest : List Lexeme
  deriving DecidableEq, Repr

namespace Cursor

/-- The place before the first lexeme of a text. -/
def start (text : String) : Cursor where
  size := Text.byteLength text.toList
  opened := none
  rest := Lexeme.ofText text.toList

/-- The number of bytes of the text that lie behind the cursor. -/
def position (cursor : Cursor) : Nat :=
  cursor.size - Text.byteLength (Lexeme.textOf cursor.rest)

/-- The lexemes ahead, past what is left of an opened block. -/
def pastBlock (cursor : Cursor) : List Lexeme :=
  match cursor.opened with
  | none => cursor.rest
  | some bracket => cursor.rest.drop ((Lexeme.blockContent [bracket] cursor.rest).length + 1)

/-- The place right before the next token that is no space or comment, or the end. -/
def settle (cursor : Cursor) : Cursor :=
  { cursor with opened := none, rest := Lexeme.skipBlank cursor.pastBlock }

/-- The next token that is no space or comment, and the place after it. -/
def next (cursor : Cursor) : Option Lexeme × Cursor :=
  match cursor.settle.rest with
  | [] => (none, cursor.settle)
  | lexeme :: rest =>
      (some lexeme, { cursor with opened := lexeme.token.opens, rest })

/-- Whether only spaces, comments and the rest of an opened block are ahead. -/
def exhausted (cursor : Cursor) : Bool :=
  cursor.settle.rest.isEmpty

theorem settle_rest_suffix (cursor : Cursor) : cursor.settle.rest <:+ cursor.rest := by
  have past : cursor.pastBlock <:+ cursor.rest := by
    unfold pastBlock
    split
    · exact List.suffix_refl _
    · exact List.drop_suffix _ _
  exact (List.dropWhile_suffix _).trans past

end Cursor

end MediaQuery
