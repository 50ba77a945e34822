import MediaQuery.Number.Numeral
import MediaQuery.Text.Character

/-!
# Tokens of a JSON text

A JSON text is a row of punctuation marks, words, numbers and strings with white
space between them. Numbers are kept as numerals, whatever their size, and a
string whose escapes leave half of a surrogate pair alone is a token without text.
-/

namespace MediaQuery

namespace Json

/-- A token of a JSON text. -/
inductive Token where
  | openObject
  | closeObject
  | openArray
  | closeArray
  | colon
  | comma
  | null
  | bool (value : Bool)
  | number (numeral : Numeral)
  | string (text : Option String)
  deriving DecidableEq, Repr

namespace Token

/-- A character that may stand between tokens. -/
def isSpace (character : Char) : Bool :=
  character == ' ' || character == '\t' || character == '\n' || character == '\r'

/-- The code of the character that the text after a backslash stands for, and its length. -/
def escape? : List Char → Option (Nat × Nat)
  | 'u' :: first :: second :: third :: fourth :: _ =>
      let digits := [first, second, third, fourth]
      if digits.all Character.isHexDigit then some (Character.hexNumber digits, 5) else none
  | '"' :: _ => some ('"'.toNat, 1)
  | '\\' :: _ => some ('\\'.toNat, 1)
  | '/' :: _ => some ('/'.toNat, 1)
  | 'b' :: _ => some (0x08, 1)
  | 'f' :: _ => some (0x0c, 1)
  | 'n' :: _ => some (0x0a, 1)
  | 'r' :: _ => some (0x0d, 1)
  | 't' :: _ => some (0x09, 1)
  | _ => none

/--
The codes of the rest of a string after its opening quote, and the length of that
rest; an escape has already taken some of it. Control characters are refused.
-/
def scanString? : Nat → List Char → Option (List Nat × Nat)
  | _, [] => none
  | skip + 1, _ :: rest => (scanString? skip rest).map fun (codes, length) => (codes, length + 1)
  | 0, first :: rest =>
      if first == '"' then
        some ([], 1)
      else if first.toNat < 0x20 then
        none
      else if first == '\\' then
        (escape? rest).bind fun (code, taken) =>
          (scanString? taken rest).map fun (codes, length) => (code :: codes, length + 1)
      else
        (scanString? 0 rest).map fun (codes, length) => (first.toNat :: codes, length + 1)

/-- Whether a code is the first half of a surrogate pair. -/
def isHighSurrogate (code : Nat) : Bool :=
  0xd800 ≤ code && code ≤ 0xdbff

/-- Whether a code is the second half of a surrogate pair. -/
def isLowSurrogate (code : Nat) : Bool :=
  0xdc00 ≤ code && code ≤ 0xdfff

/-- The characters that codes stand for, surrogate pairs joined; none if a half stands alone. -/
def textOfCodes? : List Nat → Option (List Char)
  | [] => some []
  | [code] =>
      if isHighSurrogate code || isLowSurrogate code then none else some [Char.ofNat code]
  | code :: next :: rest =>
      if isHighSurrogate code then
        if isLowSurrogate next then
          (textOfCodes? rest).map
            (Char.ofNat ((code - 0xd800) * 0x400 + (next - 0xdc00) + 0x10000) :: ·)
        else
          none
      else if isLowSurrogate code then
        none
      else
        (textOfCodes? (next :: rest)).map (Char.ofNat code :: ·)

/-- Whether whole digits are written as JSON has them: at least one, and no zero in front. -/
def hasPlainWhole (numeral : Numeral) : Bool :=
  match numeral.whole with
  | [] => false
  | [_] => true
  | first :: _ => first != 0

/-- The numeral at the front of a text that starts with a minus sign or a digit. -/
def scanNumber? (text : List Char) : Option (Token × Nat) :=
  let (numeral, length) := Numeral.scan text
  if hasPlainWhole numeral then some (.number numeral, length) else none

/-- The token at the front of a text that starts with no space, and its length. -/
def scan? : List Char → Option (Token × Nat)
  | '\x7b' :: _ => some (.openObject, 1)
  | '\x7d' :: _ => some (.closeObject, 1)
  | '[' :: _ => some (.openArray, 1)
  | ']' :: _ => some (.closeArray, 1)
  | ':' :: _ => some (.colon, 1)
  | ',' :: _ => some (.comma, 1)
  | 'n' :: 'u' :: 'l' :: 'l' :: _ => some (.null, 4)
  | 't' :: 'r' :: 'u' :: 'e' :: _ => some (.bool true, 4)
  | 'f' :: 'a' :: 'l' :: 's' :: 'e' :: _ => some (.bool false, 5)
  | '"' :: rest =>
      (scanString? 0 rest).map fun (codes, length) =>
        (.string ((textOfCodes? codes).map String.ofList), length + 1)
  | first :: rest =>
      if first == '-' || first.isDigit then scanNumber? (first :: rest) else none
  | [] => none

/-- The tokens of a text whose first characters already belong to a token before it. -/
def ofTextFrom? : Nat → List Char → Option (List Token)
  | _, [] => some []
  | skip + 1, _ :: rest => ofTextFrom? skip rest
  | 0, first :: rest =>
      if isSpace first then
        ofTextFrom? 0 rest
      else
        (scan? (first :: rest)).bind fun (token, length) =>
          (ofTextFrom? (length - 1) rest).map (token :: ·)

/-- The tokens that a text is made of, if it is made of tokens. -/
def ofText? (text : List Char) : Option (List Token) :=
  ofTextFrom? 0 text

end Token

end Json

end MediaQuery
