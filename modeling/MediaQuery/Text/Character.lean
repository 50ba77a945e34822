/-!
# Characters of query text

The character classes that decide where a lexeme starts and ends. Query text is
read as it is, so a carriage return, a form feed and the null character have
their own rules here.
-/

namespace MediaQuery

namespace Character

/-- A character that ends a line: line feed, carriage return or form feed. -/
def isNewline (character : Char) : Bool :=
  character == '\n' || character == '\r' || character == '\x0c'

/-- A character that separates tokens: space, tab or a newline. -/
def isSpace (character : Char) : Bool :=
  character == ' ' || character == '\t' || isNewline character

/-- A character outside the seven-bit range. -/
def isWide (character : Char) : Bool :=
  decide (0x80 ≤ character.toNat)

/-- A character that can begin a name: a letter, `_`, null or any wide character. -/
def isNameStart (character : Char) : Bool :=
  character.isAlpha || character == '_' || character == '\x00' || isWide character

/-- A character that can continue a name. -/
def isNamePart (character : Char) : Bool :=
  isNameStart character || character.isDigit || character == '-'

/-- A hexadecimal digit in either letter case. -/
def isHexDigit (character : Char) : Bool :=
  character.isDigit || ('a' ≤ character && character ≤ 'f') ||
    ('A' ≤ character && character ≤ 'F')

/-- A control character that no unquoted address may hold. -/
def isUnprintable (character : Char) : Bool :=
  let code := character.toNat
  (1 ≤ code && code ≤ 0x08) || code == 0x0b || (0x0e ≤ code && code ≤ 0x1f) || code == 0x7f

/-- The character that stands for one that cannot be shown. -/
def replacement : Char :=
  '\ufffd'

/-- A character as a name shows it: null gives way to the replacement character. -/
def shown (character : Char) : Char :=
  if character == '\x00' then replacement else character

/-- The value of a hexadecimal digit. -/
def hexValue (digit : Char) : Nat :=
  if digit.isDigit then digit.toNat - '0'.toNat
  else digit.toLower.toNat - 'a'.toNat + 10

/-- The number that a run of hexadecimal digits writes. -/
def hexNumber (digits : List Char) : Nat :=
  digits.foldl (fun number digit => number * 16 + hexValue digit) 0

end Character

end MediaQuery
