import MediaQuery.Lexeme.Scan

/-!
# Components of a query

A query reads as a row of components: single tokens and whole blocks. Nothing
inside a block is seen from outside it, and a block that is left open runs to the
end.
-/

namespace MediaQuery

/-- A token of a query, or a block with what it holds. -/
inductive Component where
  | token (lexeme : Lexeme)
  | block (opener : Lexeme) (content : List Lexeme)
  deriving DecidableEq, Repr

namespace Component

/-- The components of lexemes whose first ones already belong to a block before them. -/
def ofLexemesFrom : Nat → List Lexeme → List Component
  | _, [] => []
  | skip + 1, _ :: rest => ofLexemesFrom skip rest
  | 0, lexeme :: rest =>
      match lexeme.token.opens with
      | none => .token lexeme :: ofLexemesFrom 0 rest
      | some bracket =>
          let content := Lexeme.blockContent [bracket] rest
          .block lexeme content :: ofLexemesFrom (content.length + 1) rest

/-- The components that lexemes make up, in order. -/
def ofLexemes (lexemes : List Lexeme) : List Component :=
  ofLexemesFrom 0 lexemes

/-- Whether a component only separates others. -/
def isBlank : Component → Bool
  | .token lexeme => lexeme.isBlank
  | .block _ _ => false

/-- The components of a text that mean something. -/
def ofText (text : List Char) : List Component :=
  (ofLexemes (Lexeme.ofText text)).filter fun component => !component.isBlank

/-- The name that a component is, if it is one. -/
def name? : Component → Option (List Char)
  | .token ⟨.ident name, _⟩ => some name
  | _ => none

/-- What a block in round brackets holds; a function is no such block. -/
def content? : Component → Option (List Lexeme)
  | .block ⟨.opening .round, _⟩ content => some content
  | _ => none

end Component

end MediaQuery
