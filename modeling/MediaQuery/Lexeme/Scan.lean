import MediaQuery.Lexeme.Basic
import MediaQuery.Lexeme.Name

/-!
# Reading text as lexemes

Every text is a sequence of lexemes. `Token.scan` decides the token at the front
of a text and its length; `Lexeme.ofText` goes through the text with it. Nothing
is refused: strings, comments, addresses and blocks that the text leaves open run
to its end.
-/

namespace MediaQuery

namespace Token

open Character

/-- A scanned token with more characters in front of it. -/
def lengthen (more : Nat) (scanned : Token × Nat) : Token × Nat :=
  (scanned.1, scanned.2 + more)

/-- The length of a comment after its first two characters. -/
def commentLength : List Char → Nat
  | [] => 0
  | '*' :: '/' :: _ => 2
  | _ :: rest => commentLength rest + 1

/-- How much of the text after a backslash in a string belongs to the escape. -/
def stringEscapeLength (text : List Char) : Nat :=
  match Name.newlineLength? text with
  | some length => length
  | none => (Name.escape text).2

/-- The rest of a string after its opening quote; an escape has already taken some of it. -/
def scanString (quote : Char) : Nat → List Char → Token × Nat
  | _, [] => (.string, 0)
  | skip + 1, _ :: rest => lengthen 1 (scanString quote skip rest)
  | 0, first :: rest =>
      if first == quote then
        (.string, 1)
      else if isNewline first then
        (.brokenString, 0)
      else if first == '\\' then
        lengthen 1 (scanString quote (stringEscapeLength rest) rest)
      else
        lengthen 1 (scanString quote 0 rest)

/-- The length of what is left of a broken address, its closing bracket included. -/
def brokenUrlLength : List Char → Nat
  | [] => 0
  | ')' :: _ => 1
  | '\\' :: ')' :: rest => brokenUrlLength rest + 2
  | '\\' :: '\\' :: rest => brokenUrlLength rest + 2
  | _ :: rest => brokenUrlLength rest + 1

/-- The rest of an address from the space after it on: only its closing bracket may follow. -/
def scanUrlEnd : List Char → Token × Nat
  | [] => (.url, 0)
  | first :: rest =>
      if isSpace first then lengthen 1 (scanUrlEnd rest)
      else if first == ')' then (.url, 1)
      else (.brokenUrl, brokenUrlLength rest + 1)

/-- The rest of an unquoted address; an escape has already taken some of it. -/
def scanUrl : Nat → List Char → Token × Nat
  | _, [] => (.url, 0)
  | skip + 1, _ :: rest => lengthen 1 (scanUrl skip rest)
  | 0, first :: rest =>
      if first == ')' then
        (.url, 1)
      else if isSpace first then
        lengthen 1 (scanUrlEnd rest)
      else if isUnprintable first || first == '"' || first == '\'' || first == '(' then
        (.brokenUrl, brokenUrlLength rest + 1)
      else if first == '\\' then
        if Name.continuesEscape rest then
          lengthen 1 (scanUrl (Name.escape rest).2 rest)
        else
          (.brokenUrl, brokenUrlLength rest + 1)
      else
        lengthen 1 (scanUrl 0 rest)

/-- Whether the first character of a text that is no space is a quote. -/
def startsQuoted (text : List Char) : Bool :=
  match text.dropWhile isSpace with
  | first :: _ => first == '"' || first == '\''
  | [] => false

/--
The token that starts with a name: the name itself, a function, or an address. An
address in quotes is a function with a string in it.
-/
def scanName (text : List Char) : Token × Nat :=
  let (name, length) := Name.scan text
  match text.drop length with
  | '(' :: rest =>
      if Text.lower name = ['u', 'r', 'l'] && !startsQuoted rest then
        let gap := (rest.takeWhile isSpace).length
        lengthen (length + 1 + gap) (scanUrl 0 (rest.drop gap))
      else
        (.function, length + 1)
  | _ => (.ident name, length)

/-- The token that starts with a numeral: a percentage, a dimension or a number. -/
def scanNumeric (text : List Char) : Token × Nat :=
  let (numeral, length) := Numeral.scan text
  let rest := text.drop length
  if rest.head? = some '%' then
    (.percentage numeral, length + 1)
  else if Name.starts rest then
    let (unit, unitLength) := Name.scan rest
    (.dimension numeral unit, length + unitLength)
  else
    (.number numeral, length)

/-- Whether the text after `#` makes a token with it. -/
def continuesHash (text : List Char) : Bool :=
  Name.starts text || (text.head?.map fun first => first.isDigit || first == '-').getD false

/-- The token that starts with a mark, and its length. -/
def scanMark : List Char → Token × Nat
  | '(' :: _ => (.opening .round, 1)
  | ')' :: _ => (.closing .round, 1)
  | '[' :: _ => (.opening .square, 1)
  | ']' :: _ => (.closing .square, 1)
  | '\x7b' :: _ => (.opening .curly, 1)
  | '\x7d' :: _ => (.closing .curly, 1)
  | ':' :: _ => (.colon, 1)
  | ';' :: _ => (.semicolon, 1)
  | ',' :: _ => (.comma, 1)
  | '/' :: '*' :: rest => lengthen 2 (.comment, commentLength rest)
  | '<' :: '!' :: '-' :: '-' :: _ => (.markupOpen, 4)
  | '$' :: '=' :: _ => (.comparison, 2)
  | '*' :: '=' :: _ => (.comparison, 2)
  | '^' :: '=' :: _ => (.comparison, 2)
  | '|' :: '=' :: _ => (.comparison, 2)
  | '~' :: '=' :: _ => (.comparison, 2)
  | '#' :: rest =>
      if continuesHash rest then (.hash, (Name.scan rest).2 + 1) else (.delimiter '#', 1)
  | '@' :: rest =>
      if Name.starts rest then (.atName, (Name.scan rest).2 + 1) else (.delimiter '@', 1)
  | first :: _ => (.delimiter first, 1)
  | [] => (.space, 0)

/-- Whether a text starts with the sign `-->`, which is no name. -/
def startsMarkupClose : List Char → Bool
  | '-' :: '-' :: '>' :: _ => true
  | _ => false

/-- The token at the front of a text that is not empty, and its length. -/
def scan (text : List Char) : Token × Nat :=
  match text with
  | [] => (.space, 0)
  | first :: rest =>
      if isSpace first then (.space, 1)
      else if first == '"' || first == '\'' then lengthen 1 (scanString first 0 rest)
      else if Numeral.starts text then scanNumeric text
      else if startsMarkupClose text then (.markupClose, 3)
      else if Name.starts text then scanName text
      else scanMark text

end Token

namespace Lexeme

/-- The lexemes of a text whose first characters already belong to a lexeme before it. -/
def ofTextFrom : Nat → List Char → List Lexeme
  | _, [] => []
  | skip + 1, _ :: rest => ofTextFrom skip rest
  | 0, first :: rest =>
      let (token, length) := Token.scan (first :: rest)
      ⟨token, first :: rest.take (length - 1)⟩ :: ofTextFrom (length - 1) rest

/-- The lexemes that a text is made of, in order. -/
def ofText (text : List Char) : List Lexeme :=
  ofTextFrom 0 text

theorem textOf_ofTextFrom (skip : Nat) (text : List Char) :
    textOf (ofTextFrom skip text) = text.drop skip := by
  induction text generalizing skip with
  | nil => simp [ofTextFrom, textOf]
  | cons first rest ih =>
      cases skip with
      | zero =>
          have tail := ih ((Token.scan (first :: rest)).2 - 1)
          simp only [textOf] at tail
          simp [ofTextFrom, textOf, tail]
      | succ skip => simpa [ofTextFrom] using ih skip

/-- The lexemes of a text spell the whole of it. -/
theorem textOf_ofText (text : List Char) : textOf (ofText text) = text := by
  simp [ofText, textOf_ofTextFrom]

end Lexeme

end MediaQuery
