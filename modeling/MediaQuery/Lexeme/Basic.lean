import MediaQuery.Number.Numeral
import MediaQuery.Text.Basic

/-!
# Tokens and lexemes

A token is what a piece of query text means to a reader; a lexeme is a token
together with the characters that spell it. Spaces and comments are tokens of
their own, so the lexemes of a text spell the whole of it.
-/

namespace MediaQuery

/-- The three kinds of brackets that enclose a block. -/
inductive Bracket where
  | round
  | square
  | curly
  deriving DecidableEq, Repr

/-- What a piece of query text means. -/
inductive Token where
  /-- One space character. -/
  | space
  | comment
  /-- A name, its escapes resolved. -/
  | ident (name : List Char)
  /-- A name and the round bracket that touches it. -/
  | function
  /-- A name after `@`. -/
  | atName
  /-- A name after `#`. -/
  | hash
  | string
  /-- A quoted text that a newline cuts off. -/
  | brokenString
  /-- An unquoted address. -/
  | url
  | brokenUrl
  | number (numeral : Numeral)
  | percentage (numeral : Numeral)
  /-- A number and the unit that touches it, its escapes resolved. -/
  | dimension (numeral : Numeral) (unit : List Char)
  /-- A comparison sign of attribute selectors, such as `~=`. -/
  | comparison
  | colon
  | semicolon
  | comma
  /-- The sign `<!--`. -/
  | markupOpen
  /-- The sign `-->`. -/
  | markupClose
  | opening (bracket : Bracket)
  | closing (bracket : Bracket)
  /-- Any other character. -/
  | delimiter (character : Char)
  deriving DecidableEq, Repr

namespace Token

/-- The bracket that a token opens; a function opens a round one. -/
def opens : Token → Option Bracket
  | .function => some .round
  | .opening bracket => some bracket
  | _ => none

/-- Whether a token only separates others. -/
def isBlank : Token → Bool
  | .space => true
  | .comment => true
  | _ => false

/--
The open brackets after a token, the innermost first. A closing bracket ends the
innermost block if it fits it, and means nothing otherwise.
-/
def nest (brackets : List Bracket) (token : Token) : List Bracket :=
  match token with
  | .closing bracket => if brackets.head? = some bracket then brackets.tail else brackets
  | _ =>
      match token.opens with
      | some bracket => bracket :: brackets
      | none => brackets

end Token

/-- A token and the characters that spell it. -/
structure Lexeme where
  token : Token
  text : List Char
  deriving DecidableEq, Repr

namespace Lexeme

/-- Whether a lexeme only separates others. -/
def isBlank (lexeme : Lexeme) : Bool :=
  lexeme.token.isBlank

/-- The characters that a list of lexemes spells. -/
def textOf (lexemes : List Lexeme) : List Char :=
  lexemes.flatMap Lexeme.text

/-- A list of lexemes without the spaces and comments at its front. -/
def skipBlank (lexemes : List Lexeme) : List Lexeme :=
  lexemes.dropWhile Lexeme.isBlank

/--
The lexemes of a block up to the bracket that closes it, or all of them if none
does. The open brackets are given, the innermost first.
-/
def blockContent (brackets : List Bracket) : List Lexeme → List Lexeme
  | [] => []
  | lexeme :: rest =>
      match lexeme.token.nest brackets with
      | [] => []
      | bracket :: outer => lexeme :: blockContent (bracket :: outer) rest

end Lexeme

end MediaQuery
