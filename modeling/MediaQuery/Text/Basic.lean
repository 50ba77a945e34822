/-!
# Text as a list of characters

Letter case, surrounding white space and length in bytes. Letter case concerns
the English letters only, whereas white space is the whole Unicode property:
the two standards behind a media query draw these lines differently.
-/

namespace MediaQuery

namespace Text

/-- A text with its English capital letters made small. -/
def lower (text : List Char) : List Char :=
  text.map Char.toLower

/-- The characters with the Unicode property `White_Space`. -/
def isWhiteSpace (character : Char) : Bool :=
  let code := character.toNat
  (0x09 ≤ code && code ≤ 0x0d) || code == 0x20 || code == 0x85 || code == 0xa0 ||
    code == 0x1680 || (0x2000 ≤ code && code ≤ 0x200a) || code == 0x2028 || code == 0x2029 ||
    code == 0x202f || code == 0x205f || code == 0x3000

/-- A text without the white space at its end. -/
def trimEnd (text : List Char) : List Char :=
  (text.reverse.dropWhile isWhiteSpace).reverse

/-- A text without the white space around it. -/
def trim (text : List Char) : List Char :=
  trimEnd (text.dropWhile isWhiteSpace)

/-- The number of bytes that a text takes in UTF-8. -/
def byteLength : List Char → Nat
  | [] => 0
  | character :: rest => character.utf8Size + byteLength rest

/-- The front of a text that takes exactly the given number of bytes, if one does. -/
def takeBytes : Nat → List Char → Option (List Char)
  | 0, _ => some []
  | _ + 1, [] => none
  | bytes + 1, character :: rest =>
      if character.utf8Size ≤ bytes + 1 then
        (takeBytes (bytes + 1 - character.utf8Size) rest).map (character :: ·)
      else
        none

/-- The parts of a text between its commas; a text without one is its own only part. -/
def splitAtCommas : List Char → List (List Char)
  | [] => [[]]
  | character :: rest =>
      if character == ',' then
        [] :: splitAtCommas rest
      else
        (splitAtCommas rest).modifyHead (character :: ·)

theorem byteLength_append (left right : List Char) :
    byteLength (left ++ right) = byteLength left + byteLength right := by
  induction left with
  | nil => simp [byteLength]
  | cons character rest ih => simp [byteLength, ih, Nat.add_assoc]

/-- A text has one part more than it has commas. -/
theorem length_splitAtCommas (text : List Char) :
    (splitAtCommas text).length = text.count ',' + 1 := by
  induction text with
  | nil => rfl
  | cons character rest ih =>
      by_cases comma : character = ','
      · simp [splitAtCommas, comma, ih]
      · simp [splitAtCommas, comma, ih]

/-- A comma parts the text before it from the text after it. -/
theorem splitAtCommas_append_comma (left right : List Char) :
    splitAtCommas (left ++ ',' :: right) = splitAtCommas left ++ splitAtCommas right := by
  induction left with
  | nil => simp [splitAtCommas]
  | cons character rest ih =>
      by_cases comma : character = ','
      · simp [splitAtCommas, comma, ih]
      · have nonempty : splitAtCommas rest ≠ [] := by
          intro empty
          have length := length_splitAtCommas rest
          simp [empty] at length
        rcases parts : splitAtCommas rest with _ | ⟨head, tail⟩
        · exact absurd parts nonempty
        · simp [splitAtCommas, comma, ih, parts]

end Text

end MediaQuery
