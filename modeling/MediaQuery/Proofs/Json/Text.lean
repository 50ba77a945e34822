import MediaQuery.Json.Token
import MediaQuery.Proofs.Text.Case

/-!
# Strings of a JSON text

How the text between two quotes spells a row of codes, by characters and by escapes, and which
characters the codes stand for: those above the lowest plane may be escaped as two halves of a
surrogate pair, and a half without the other one stands for none. What the reader takes as a string
is what is written that way.
-/

namespace MediaQuery

namespace Json

/-- The escapes of one character, each with the code that it stands for. -/
def shortEscapes : List (Char × Nat) :=
  [('"', 0x22), ('\\', 0x5c), ('/', 0x2f), ('b', 0x08), ('f', 0x0c), ('n', 0x0a), ('r', 0x0d),
    ('t', 0x09)]

/-- What stands behind the backslash of an escape, and the code that it stands for. -/
inductive IsEscape : List Char → Nat → Prop
  | short {mark : Char} {code : Nat} (member : (mark, code) ∈ shortEscapes) : IsEscape [mark] code
  | digits {first second third fourth : Char}
      (isHex : ∀ digit ∈ [first, second, third, fourth], Character.isHexDigit digit = true) :
      IsEscape ['u', first, second, third, fourth]
        (Character.hexNumber [first, second, third, fourth])

/-- A character that stands for itself in a string: no quote, no backslash and no control. -/
structure IsPlain (character : Char) : Prop where
  noQuote : character ≠ '"'
  noBackslash : character ≠ '\\'
  noControl : 0x20 ≤ character.toNat

/-- How the text between two quotes spells a row of codes. -/
inductive IsBody : List Char → List Nat → Prop
  | nil : IsBody [] []
  | plain {first : Char} {body : List Char} {codes : List Nat} (isPlain : IsPlain first)
      (rest : IsBody body codes) : IsBody (first :: body) (first.toNat :: codes)
  | escape {piece body : List Char} {code : Nat} {codes : List Nat} (isEscape : IsEscape piece code)
      (rest : IsBody body codes) : IsBody ('\\' :: (piece ++ body)) (code :: codes)

/-- The characters that codes stand for: one for each code, or one for the halves of a pair. -/
inductive Joins : List Nat → List Char → Prop
  | nil : Joins [] []
  | plain {first : Char} {codes : List Nat} {text : List Char} (rest : Joins codes text) :
      Joins (first.toNat :: codes) (first :: text)
  | pair {first : Char} {high low : Nat} {codes : List Nat} {text : List Char}
      (isHigh : Token.isHighSurrogate high = true) (isLow : Token.isLowSurrogate low = true)
      (joined : first.toNat = (high - 0xd800) * 0x400 + (low - 0xdc00) + 0x10000)
      (rest : Joins codes text) : Joins (high :: low :: codes) (first :: text)

section Codes

theorem hexValue_lt {digit : Char} (isHex : Character.isHexDigit digit = true) :
    Character.hexValue digit < 16 := by
  rw [← Character.hexValue_toLower]
  rw [← Character.isHexDigit_toLower] at isHex
  have small := Character.isUpper_toLower digit
  generalize digit.toLower = lower at isHex small
  rw [Character.hexValue, Character.toLower_of_not_isUpper small]
  split
  · rename_i isDigit
    simp only [Char.isDigit, Bool.and_eq_true, decide_eq_true_eq] at isDigit
    have last : lower.toNat ≤ '9'.toNat := isDigit.2
    have nine : '9'.toNat = 57 := rfl
    have zero : '0'.toNat = 48 := rfl
    omega
  · rename_i noDigit
    simp only [Character.isHexDigit, noDigit, Bool.or_eq_true, Bool.and_eq_true, decide_eq_true_eq,
      Bool.false_eq_true, false_or] at isHex
    rcases isHex with ⟨first, last⟩ | ⟨first, last⟩
    · have last : lower.toNat ≤ 'f'.toNat := last
      have six : 'f'.toNat = 102 := rfl
      have one : 'a'.toNat = 97 := rfl
      omega
    · have isUpper : lower.isUpper = true :=
        decide_eq_true ⟨first, Nat.le_trans last (by decide)⟩
      rw [isUpper] at small
      cases small

theorem hexNumber_lt {first second third fourth : Char}
    (isHex : ∀ digit ∈ [first, second, third, fourth], Character.isHexDigit digit = true) :
    Character.hexNumber [first, second, third, fourth] < 0x10000 := by
  have digit := fun digit member => hexValue_lt (isHex digit member)
  simp only [List.mem_cons, List.not_mem_nil, or_false, forall_eq_or_imp, forall_eq] at digit
  simp only [Character.hexNumber, List.foldl_cons, List.foldl_nil]
  omega

theorem IsEscape.code_lt {piece : List Char} {code : Nat} (isEscape : IsEscape piece code) :
    code < 0x10000 := by
  cases isEscape with
  | short member =>
      have small : ∀ escape ∈ shortEscapes, escape.2 < 0x10000 := by decide
      exact small _ member
  | digits isHex => exact hexNumber_lt isHex

/-- No code of a string is beyond those of characters. -/
theorem IsBody.code_lt {body : List Char} {codes : List Nat} (isBody : IsBody body codes) :
    ∀ code ∈ codes, code < 0x110000 := by
  induction isBody with
  | nil => simp
  | @plain first _ _ _ _ ih =>
      have small : first.toNat < 0x110000 := by
        have valid := first.valid
        simp only [UInt32.isValidChar, Nat.isValidChar] at valid
        rw [Char.toNat]
        omega
      exact List.forall_mem_cons.mpr ⟨small, ih⟩
  | escape isEscape _ ih =>
      exact List.forall_mem_cons.mpr ⟨Nat.lt_trans isEscape.code_lt (by decide), ih⟩

end Codes

namespace Token

section Escape

theorem escape?_of_isEscape {piece : List Char} {code : Nat} (isEscape : IsEscape piece code)
    (rest : List Char) : escape? (piece ++ rest) = some (code, piece.length) := by
  cases isEscape with
  | short member =>
      simp only [shortEscapes, List.mem_cons, Prod.mk.injEq, List.not_mem_nil, or_false] at member
      rcases member with ⟨rfl, rfl⟩ | ⟨rfl, rfl⟩ | ⟨rfl, rfl⟩ | ⟨rfl, rfl⟩ | ⟨rfl, rfl⟩ |
        ⟨rfl, rfl⟩ | ⟨rfl, rfl⟩ | ⟨rfl, rfl⟩ <;> rfl
  | @digits first second third fourth isHex =>
      have allHex : [first, second, third, fourth].all Character.isHexDigit = true :=
        List.all_eq_true.mpr isHex
      simp only [List.cons_append, List.nil_append, escape?, allHex, if_true, List.length_cons,
        List.length_nil]

theorem isEscape_of_escape? {text : List Char} {code taken : Nat}
    (found : escape? text = some (code, taken)) :
    ∃ piece rest, text = piece ++ rest ∧ piece.length = taken ∧ IsEscape piece code := by
  revert found
  fun_cases escape? text with
  | case1 first second third fourth rest digits allHex =>
      rintro ⟨⟩
      exact ⟨['u', first, second, third, fourth], rest, rfl, rfl,
        .digits (List.all_eq_true.mp allHex)⟩
  | case2 | case11 => rintro ⟨⟩
  | _ =>
      rintro ⟨⟩
      refine ⟨[_], _, rfl, rfl, .short ?_⟩
      decide

end Escape

section Body

variable {body : List Char} {codes : List Nat}

theorem scanString?_skip (taken rest : List Char) :
    scanString? taken.length (taken ++ rest) =
      (scanString? 0 rest).map fun (codes, length) => (codes, length + taken.length) := by
  induction taken with
  | nil => simp
  | cons first taken ih =>
      rw [List.length_cons, List.cons_append, scanString?, ih, Option.map_map]
      rfl

theorem scanString?_backslash (rest : List Char) :
    scanString? 0 ('\\' :: rest) =
      (escape? rest).bind fun (code, taken) =>
        (scanString? taken rest).map fun (codes, length) => (code :: codes, length + 1) :=
  rfl

/-- A body is read up to the quote behind it. -/
theorem scanString?_of_isBody (isBody : IsBody body codes) (rest : List Char) :
    scanString? 0 (body ++ '"' :: rest) = some (codes, body.length + 1) := by
  induction isBody with
  | nil => simp [scanString?]
  | @plain first _ _ isPlain _ ih =>
      have noControl : ¬ first.toNat < 0x20 := Nat.not_lt.mpr isPlain.noControl
      simp [scanString?, isPlain.noQuote, isPlain.noBackslash, noControl, ih]
  | @escape piece body code _ isEscape _ ih =>
      have skipped := scanString?_skip piece (body ++ '"' :: rest)
      rw [ih] at skipped
      rw [List.cons_append, List.append_assoc, scanString?_backslash,
        escape?_of_isEscape isEscape, Option.bind_some]
      simp only [skipped, Option.map_some, Option.some.injEq, Prod.mk.injEq, true_and,
        List.length_cons, List.length_append]
      omega

/-- What is read as a string is a body and the quote behind it. -/
theorem isBody_of_scanString? {skip length : Nat} {text : List Char}
    (found : scanString? skip text = some (codes, length)) :
    ∃ front body rest, text = front ++ (body ++ '"' :: rest) ∧ front.length = skip ∧
      length = skip + body.length + 1 ∧ IsBody body codes := by
  -- the characters to skip are those of an escape, which its own case puts back
  fun_induction scanString? skip text generalizing codes length with
  | case1 => cases found
  | case2 skip first rest ih =>
      rcases Option.map_eq_some_iff.mp found with ⟨⟨codes, length⟩, foundRest, ⟨⟩⟩
      rcases ih foundRest with ⟨front, body, after, rfl, taken, long, isBody⟩
      refine ⟨first :: front, body, after, rfl, ?_, ?_, isBody⟩
      · rw [List.length_cons, taken]
      · omega
  | case3 first rest isQuote =>
      cases found
      rw [beq_iff_eq] at isQuote
      exact ⟨[], [], rest, by rw [isQuote]; rfl, rfl, rfl, .nil⟩
  | case4 => cases found
  | case5 first rest noQuote noControl isBackslash ih =>
      rcases Option.bind_eq_some_iff.mp found with ⟨⟨code, taken⟩, escaped, goesOn⟩
      rcases Option.map_eq_some_iff.mp goesOn with ⟨⟨codes, length⟩, foundRest, ⟨⟩⟩
      rcases isEscape_of_escape? escaped with ⟨piece, left, rfl, pieceLength, isEscape⟩
      rcases ih taken foundRest with ⟨front, body, after, same, taken, long, isBody⟩
      rcases List.append_inj same (pieceLength.trans taken.symm) with ⟨rfl, rfl⟩
      rw [beq_iff_eq] at isBackslash
      refine ⟨[], '\\' :: (piece ++ body), after, ?_, rfl, ?_, .escape isEscape isBody⟩
      · rw [isBackslash, List.nil_append, List.cons_append, List.append_assoc]
      · rw [long, List.length_cons, List.length_append]
        omega
  | case6 first rest noQuote noControl noBackslash ih =>
      rcases Option.map_eq_some_iff.mp found with ⟨⟨codes, length⟩, foundRest, ⟨⟩⟩
      rcases ih foundRest with ⟨front, body, after, rfl, taken, long, isBody⟩
      have isPlain : IsPlain first := ⟨by simpa using noQuote, by simpa using noBackslash,
        Nat.not_lt.mp noControl⟩
      rw [List.eq_nil_of_length_eq_zero taken, List.nil_append] at *
      exact ⟨[], first :: body, after, rfl, rfl, by rw [long]; rfl, .plain isPlain isBody⟩

end Body

section Joins

variable {codes : List Nat} {text : List Char}

theorem isSurrogate_toNat (character : Char) :
    isHighSurrogate character.toNat = false ∧ isLowSurrogate character.toNat = false := by
  have valid := character.valid
  simp only [UInt32.isValidChar, Nat.isValidChar] at valid
  simp only [isHighSurrogate, isLowSurrogate, Bool.and_eq_false_iff, decide_eq_false_iff_not,
    Char.toNat]
  omega

theorem textOfCodes?_cons {code : Nat} (noHigh : isHighSurrogate code = false)
    (noLow : isLowSurrogate code = false) (codes : List Nat) :
    textOfCodes? (code :: codes) = (textOfCodes? codes).map (Char.ofNat code :: ·) := by
  cases codes with
  | nil => simp [textOfCodes?, noHigh, noLow]
  | cons next rest => simp [textOfCodes?, noHigh, noLow]

theorem textOfCodes?_of_joins (joins : Joins codes text) : textOfCodes? codes = some text := by
  induction joins with
  | nil => rfl
  | @plain first _ _ _ ih =>
      rcases isSurrogate_toNat first with ⟨noHigh, noLow⟩
      rw [textOfCodes?_cons noHigh noLow, ih, Option.map_some, Char.ofNat_toNat]
  | pair isHigh isLow joined _ ih =>
      simp only [textOfCodes?, isHigh, isLow, if_true, ih, Option.map_some, ← joined,
        Char.ofNat_toNat]

theorem toNat_ofNat {code : Nat} (valid : code.isValidChar) : (Char.ofNat code).toNat = code := by
  rw [Char.ofNat, dif_pos valid]
  rfl

theorem isValidChar_of_code {code : Nat} (noHigh : isHighSurrogate code = false)
    (noLow : isLowSurrogate code = false) (small : code < 0x110000) : code.isValidChar := by
  simp only [isHighSurrogate, isLowSurrogate, Bool.and_eq_false_iff, decide_eq_false_iff_not]
    at noHigh noLow
  simp only [Nat.isValidChar]
  omega

theorem isValidChar_of_pair {high low : Nat} (isHigh : isHighSurrogate high = true)
    (isLow : isLowSurrogate low = true) :
    ((high - 0xd800) * 0x400 + (low - 0xdc00) + 0x10000).isValidChar := by
  simp only [isHighSurrogate, isLowSurrogate, Bool.and_eq_true, decide_eq_true_eq] at isHigh isLow
  simp only [Nat.isValidChar]
  omega

theorem joins_of_textOfCodes? (found : textOfCodes? codes = some text)
    (small : ∀ code ∈ codes, code < 0x110000) : Joins codes text := by
  fun_induction textOfCodes? codes generalizing text with
  | case1 =>
      cases found
      exact .nil
  | case2 code alone => cases found
  | case3 code whole =>
      simp only [Bool.or_eq_true, not_or, Bool.not_eq_true] at whole
      cases found
      have small := small code (List.mem_singleton_self code)
      have plain := @Joins.plain (Char.ofNat code) [] [] .nil
      rwa [toNat_ofNat (isValidChar_of_code whole.1 whole.2 small)] at plain
  | case4 high low rest isHigh isLow ih =>
      rcases Option.map_eq_some_iff.mp found with ⟨text, foundRest, ⟨⟩⟩
      exact .pair isHigh isLow (toNat_ofNat (isValidChar_of_pair isHigh isLow))
        (ih foundRest fun code member => small code (by simp [member]))
  | case5 => cases found
  | case6 => cases found
  | case7 code next rest noHigh noLow ih =>
      rcases Option.map_eq_some_iff.mp found with ⟨text, foundRest, ⟨⟩⟩
      rw [Bool.not_eq_true] at noHigh noLow
      have plain := @Joins.plain (Char.ofNat code) _ _
        (ih foundRest fun code member => small code (List.mem_cons_of_mem _ member))
      have valid := isValidChar_of_code noHigh noLow (small code List.mem_cons_self)
      rwa [toNat_ofNat valid] at plain

/-- The codes of a string are read as the text that they are joined to. -/
theorem textOfCodes?_eq_some_iff {body : List Char} (isBody : IsBody body codes) :
    textOfCodes? codes = some text ↔ Joins codes text :=
  ⟨fun found => joins_of_textOfCodes? found isBody.code_lt, textOfCodes?_of_joins⟩

theorem textOfCodes?_eq_none_iff {body : List Char} (isBody : IsBody body codes) :
    textOfCodes? codes = none ↔ ∀ text, ¬ Joins codes text := by
  simp only [Option.eq_none_iff_forall_ne_some, ne_eq, textOfCodes?_eq_some_iff isBody]

end Joins

end Token

end Json

end MediaQuery
