import MediaQuery.Text.Character

/-!
# Names and escapes

A name is a run of name characters and escapes. An escape is a backslash and
either up to six hexadecimal digits, with one space character after them, or any
character but a newline.

The functions here run over the text with a count of characters that an escape
has already taken; each returns how many characters it takes in all.
-/

namespace MediaQuery

namespace Name

open Character

/-- The length of the newline at the front of a text, if there is one. -/
def newlineLength? : List Char → Option Nat
  | '\r' :: '\n' :: _ => some 2
  | character :: _ => if isNewline character then some 1 else none
  | [] => none

/-- The length of the one space character that may end the digits of an escape. -/
def escapeEnd (text : List Char) : Nat :=
  match newlineLength? text with
  | some length => length
  | none => if (text.head?.map isSpace).getD false then 1 else 0

/-- The character with a given code; the replacement character if there is none but null. -/
def scalar (code : Nat) : Char :=
  if code ≠ 0 ∧ code.isValidChar then Char.ofNat code else replacement

/-- The character that the text after a backslash stands for, and how much of it is taken. -/
def escape : List Char → Char × Nat
  | [] => (replacement, 0)
  | first :: rest =>
      if isHexDigit first then
        let digits := first :: (rest.take 5).takeWhile isHexDigit
        (scalar (hexNumber digits), digits.length + escapeEnd ((first :: rest).drop digits.length))
      else
        (shown first, 1)

/-- Whether the text after a backslash makes an escape with it. -/
def continuesEscape (text : List Char) : Bool :=
  (newlineLength? text).isNone

/-- Whether a text starts with a name. -/
def starts : List Char → Bool
  | '-' :: '\\' :: _ => true
  | '-' :: next :: _ => isNameStart next || next == '-'
  | '\\' :: rest => continuesEscape rest
  | first :: _ => isNameStart first
  | [] => false

/-- The name at the front of a text, and the number of characters that it takes. -/
def scanFrom : Nat → List Char → List Char × Nat
  | _, [] => ([], 0)
  | skip + 1, _ :: rest =>
      let (name, length) := scanFrom skip rest
      (name, length + 1)
  | 0, first :: rest =>
      if isNamePart first then
        let (name, length) := scanFrom 0 rest
        (shown first :: name, length + 1)
      else if first == '\\' && continuesEscape rest then
        let (character, taken) := escape rest
        let (name, length) := scanFrom taken rest
        (character :: name, length + 1)
      else
        ([], 0)

/-- The name at the front of a text, its escapes resolved, and how much of the text it takes. -/
def scan (text : List Char) : List Char × Nat :=
  scanFrom 0 text

end Name

end MediaQuery
