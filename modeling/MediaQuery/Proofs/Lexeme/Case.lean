import MediaQuery.Proofs.Lexeme.Closed
import MediaQuery.Proofs.Lexeme.Nesting
import MediaQuery.Proofs.Text.Case

/-!
# Letter case

A text and its copy in small letters read as the same lexemes up to letter case:
each is as long as its counterpart, and its token means the same.
-/

namespace MediaQuery

namespace Name

open Character

@[simp]
theorem newlineLength?_lower (text : List Char) :
    newlineLength? (Text.lower text) = newlineLength? text := by
  fun_cases newlineLength? text with
  | case1 rest => rfl
  | case4 => rfl
  | _ first rest other =>
      have alone := Text.not_marks_of_lower (by decide) (by decide) other
      rw [Text.lower_cons, newlineLength?.eq_2 _ _ alone]
      simp_all

@[simp]
theorem escapeEnd_lower (text : List Char) : escapeEnd (Text.lower text) = escapeEnd text := by
  have front : (Text.lower text).head?.map isSpace = text.head?.map isSpace := by
    cases text <;> simp
  rw [escapeEnd, escapeEnd, newlineLength?_lower, front]

@[simp]
theorem continuesEscape_lower (text : List Char) :
    continuesEscape (Text.lower text) = continuesEscape text := by
  simp [continuesEscape]

theorem hexNumber_lower (digits : List Char) :
    hexNumber (Text.lower digits) = hexNumber digits := by
  simp [hexNumber, Text.lower, List.foldl_map]

theorem escape_lower (text : List Char) :
    (escape (Text.lower text)).2 = (escape text).2 ∧
      (escape (Text.lower text)).1.toLower = (escape text).1.toLower := by
  match text with
  | [] => exact ⟨rfl, rfl⟩
  | first :: rest =>
      by_cases digit : isHexDigit first = true
      · have digits : (first.toLower :: (Text.lower rest |>.take 5).takeWhile isHexDigit) =
            Text.lower (first :: (rest.take 5).takeWhile isHexDigit) := by
          rw [← Text.lower_take, Text.takeWhile_lower isHexDigit_toLower]
          rfl
        simp only [Text.lower_cons, escape, isHexDigit_toLower, digit, if_true]
        rw [digits, hexNumber_lower, Text.length_lower, ← Text.lower_cons, ← Text.lower_drop,
          escapeEnd_lower]
        exact ⟨rfl, rfl⟩
      · simp [escape, digit]

@[simp]
theorem starts_lower (text : List Char) : starts (Text.lower text) = starts text := by
  match text with
  | [] => rfl
  | first :: rest =>
      by_cases hyphen : first = '-'
      · subst hyphen
        match rest with
        | [] => rfl
        | next :: tail =>
            by_cases backslash : next = '\\'
            · simp [starts, backslash]
            · simp [starts, backslash]
      · by_cases backslash : first = '\\'
        · simp [starts, backslash]
        · simp [starts, hyphen, backslash]

theorem scanFrom_lower (skip : Nat) (text : List Char) :
    (scanFrom skip (Text.lower text)).2 = (scanFrom skip text).2 ∧
      Text.lower (scanFrom skip (Text.lower text)).1 = Text.lower (scanFrom skip text).1 := by
  induction text generalizing skip with
  | nil => exact ⟨rfl, rfl⟩
  | cons first rest ih =>
      rw [Text.lower_cons]
      cases skip with
      | succ skip =>
          rw [scanFrom_succ, scanFrom_succ]
          exact ⟨by rw [(ih skip).1], (ih skip).2⟩
      | zero =>
          by_cases part : isNamePart first = true
          · rw [scanFrom_part (by simpa using part), scanFrom_part part]
            simp [ih]
          · by_cases escaped : first = '\\' ∧ continuesEscape rest = true
            · rcases escaped with ⟨rfl, continues⟩
              have same := escape_lower rest
              rw [show ('\\').toLower = '\\' from rfl, scanFrom_escape continues,
                scanFrom_escape (by simpa using continues)]
              simp [ih, same]
            · have noEscape : (first == '\\' && continuesEscape rest) = false := by
                simpa using escaped
              rw [scanFrom_stop (by simpa using part) noEscape,
                scanFrom_stop (by simpa using part) (by simpa using escaped)]
              exact ⟨rfl, rfl⟩

theorem scan_lower (text : List Char) :
    (scan (Text.lower text)).2 = (scan text).2 ∧
      Text.lower (scan (Text.lower text)).1 = Text.lower (scan text).1 :=
  scanFrom_lower 0 text

end Name

namespace Numeral

@[simp]
theorem signLength_lower (text : List Char) : signLength (Text.lower text) = signLength text := by
  cases text with
  | nil => rfl
  | cons first rest => simp [signLength_cons]

@[simp]
theorem startsNegative_lower (text : List Char) :
    startsNegative (Text.lower text) = startsNegative text := by
  cases text with
  | nil => rfl
  | cons first rest => simp [startsNegative_cons]

@[simp]
theorem startsUnsigned_lower (text : List Char) :
    startsUnsigned (Text.lower text) = startsUnsigned text := by
  match text with
  | [] => rfl
  | [first] => simp [startsUnsigned_cons]
  | first :: next :: rest => simp [startsUnsigned_cons]

@[simp]
theorem starts_lower (text : List Char) : starts (Text.lower text) = starts text := by
  rw [starts, signLength_lower, ← Text.lower_drop, startsUnsigned_lower]
  rfl

theorem takeWhile_isDigit_lower (text : List Char) :
    (Text.lower text).takeWhile Char.isDigit = text.takeWhile Char.isDigit := by
  rw [Text.takeWhile_lower Character.isDigit_toLower]
  calc Text.lower (text.takeWhile Char.isDigit)
      = (text.takeWhile Char.isDigit).map id := List.map_congr_left fun character member =>
        Character.toLower_of_isDigit (List.mem_takeWhile_imp member)
    _ = text.takeWhile Char.isDigit := List.map_id _

@[simp]
theorem wholeDigits_lower (text : List Char) :
    wholeDigits (Text.lower text) = wholeDigits text := by
  rw [wholeDigits, signLength_lower, ← Text.lower_drop, takeWhile_isDigit_lower]
  rfl

@[simp]
theorem afterWhole_lower (text : List Char) :
    afterWhole (Text.lower text) = Text.lower (afterWhole text) := by
  rw [afterWhole, signLength_lower, wholeDigits_lower, ← Text.lower_drop]
  rfl

@[simp]
theorem fractionDigits_lower (text : List Char) :
    fractionDigits (Text.lower text) = fractionDigits text := by
  cases text with
  | nil => rfl
  | cons first rest =>
      by_cases point : first = '.'
      · subst point
        exact takeWhile_isDigit_lower rest
      · simp [fractionDigits, point]

@[simp]
theorem fractionLength_lower (text : List Char) :
    fractionLength (Text.lower text) = fractionLength text := by
  simp [fractionLength]

@[simp]
theorem afterFraction_lower (text : List Char) :
    afterFraction (Text.lower text) = Text.lower (afterFraction text) := by
  rw [afterFraction, afterWhole_lower, fractionLength_lower, ← Text.lower_drop]
  rfl

theorem isMarker_toLower (character : Char) :
    (character.toLower == 'e' || character.toLower == 'E') =
      (character == 'e' || character == 'E') :=
  Character.toLower_induction
    (motive := fun capital small =>
      (small == 'e' || small == 'E') = (capital == 'e' || capital == 'E'))
    (fun _ => rfl) (by decide) character

@[simp]
theorem scanExponent_lower (text : List Char) :
    scanExponent (Text.lower text) = scanExponent text := by
  cases text with
  | nil => rfl
  | cons marker rest =>
      rw [Text.lower_cons, scanExponent, scanExponent, signLength_lower, startsNegative_lower,
        ← Text.lower_drop, takeWhile_isDigit_lower, isMarker_toLower]

@[simp]
theorem scan_lower (text : List Char) : scan (Text.lower text) = scan text := by
  simp [scan_eq]

@[simp]
theorem ofText?_lower (text : List Char) : ofText? (Text.lower text) = ofText? text := by
  simp [ofText?]

end Numeral

namespace Token

open Character

/-- A token with its names in small letters. -/
def lower : Token → Token
  | .ident name => .ident (Text.lower name)
  | .dimension numeral unit => .dimension numeral (Text.lower unit)
  | .delimiter character => .delimiter character.toLower
  | token => token

@[simp]
theorem commentLength_lower (text : List Char) :
    commentLength (Text.lower text) = commentLength text := by
  fun_induction commentLength text with
  | case1 => rfl
  | case2 rest => rfl
  | case3 first rest notEnd ih =>
      have stays := Text.not_marks_of_lower (by decide) (by decide) notEnd
      rw [Text.lower_cons, commentLength.eq_3 _ _ stays, ih]

@[simp]
theorem stringEscapeLength_lower (text : List Char) :
    stringEscapeLength (Text.lower text) = stringEscapeLength text := by
  simp [stringEscapeLength, Name.escape_lower]

theorem scanString_lower {quote : Char} (noLetter : quote.isAlpha = false) (skip : Nat)
    (text : List Char) : scanString quote skip (Text.lower text) = scanString quote skip text := by
  induction text generalizing skip with
  | nil => rfl
  | cons first rest ih =>
      cases skip with
      | succ skip => simp [scanString, ih]
      | zero => simp [scanString, ih, noLetter]

@[simp]
theorem brokenUrlLength_lower (text : List Char) :
    brokenUrlLength (Text.lower text) = brokenUrlLength text := by
  fun_induction brokenUrlLength text with
  | case1 => rfl
  | case2 rest => rfl
  | case3 rest ih => simpa [brokenUrlLength] using ih
  | case4 rest ih => simpa [brokenUrlLength] using ih
  | case5 first rest close bracket backslash ih =>
      have noClose : first.toLower = ')' → False := fun same =>
        close ((toLower_eq_iff (by decide) first).mp same)
      have noBracket := Text.not_marks_of_lower (by decide) (by decide) bracket
      have noBackslash := Text.not_marks_of_lower (by decide) (by decide) backslash
      rw [Text.lower_cons, brokenUrlLength.eq_5 _ _ noClose noBracket noBackslash, ih]

@[simp]
theorem scanUrlEnd_lower (text : List Char) : scanUrlEnd (Text.lower text) = scanUrlEnd text := by
  induction text with
  | nil => rfl
  | cons first rest ih => simp [scanUrlEnd, ih]

@[simp]
theorem scanUrl_lower (skip : Nat) (text : List Char) :
    scanUrl skip (Text.lower text) = scanUrl skip text := by
  induction text generalizing skip with
  | nil => rfl
  | cons first rest ih =>
      cases skip with
      | succ skip => simp [scanUrl, ih]
      | zero => simp [scanUrl, ih, Name.escape_lower]

@[simp]
theorem startsQuoted_lower (text : List Char) :
    startsQuoted (Text.lower text) = startsQuoted text := by
  rw [startsQuoted, Text.dropWhile_lower isSpace_toLower]
  unfold startsQuoted
  rcases text.dropWhile isSpace with _ | ⟨first, rest⟩
  · rfl
  · simp

theorem address?_lower (text : List Char) :
    address? (Text.lower text) = (address? text).map Text.lower := by
  rcases Name.scan_lower text with ⟨length, name⟩
  unfold address?
  rw [length, name, ← Text.lower_drop]
  rcases text.drop (Name.scan text).2 with _ | ⟨first, rest⟩
  · rfl
  · by_cases opened : first = '('
    · subst opened
      simp only [Text.lower_cons, show ('(').toLower = '(' from rfl, startsQuoted_lower]
      split <;> simp
    · simp [opened]

theorem scanName_lower (text : List Char) :
    (scanName (Text.lower text)).1.lower = (scanName text).1.lower ∧
      (scanName (Text.lower text)).2 = (scanName text).2 := by
  rcases Name.scan_lower text with ⟨length, name⟩
  rw [scanName_eq, scanName_eq, address?_lower, length]
  rcases address? text with _ | rest
  · have noLetter : Char.isAlpha '(' = false := by decide
    simp only [Option.map_none, ← Text.lower_drop, Text.head?_lower_iff noLetter]
    split
    · exact ⟨rfl, rfl⟩
    · simp [lower, name]
  · simp only [Option.map_some, Text.takeWhile_lower isSpace_toLower, Text.length_lower,
      ← Text.lower_drop, scanUrl_lower, and_self]

theorem scanNumeric_lower (text : List Char) :
    (scanNumeric (Text.lower text)).1.lower = (scanNumeric text).1.lower ∧
      (scanNumeric (Text.lower text)).2 = (scanNumeric text).2 := by
  rw [scanNumeric_eq, scanNumeric_eq, Numeral.scan_lower, ← Text.lower_drop]
  generalize text.drop (Numeral.scan text).2 = rest
  rcases Name.scan_lower rest with ⟨length, name⟩
  have noLetter : Char.isAlpha '%' = false := by decide
  simp only [Text.head?_lower_iff noLetter, Name.starts_lower]
  split
  · exact ⟨rfl, rfl⟩
  · split
    · simp [lower, length, name]
    · exact ⟨rfl, rfl⟩

@[simp]
theorem continuesHash_lower (text : List Char) :
    continuesHash (Text.lower text) = continuesHash text := by
  unfold continuesHash
  rw [Name.starts_lower]
  cases text with
  | nil => rfl
  | cons first rest => simp

theorem scanMark_lower (text : List Char) :
    (scanMark (Text.lower text)).1.lower = (scanMark text).1.lower ∧
      (scanMark (Text.lower text)).2 = (scanMark text).2 := by
  fun_cases scanMark text with
  | case10 body => simp [scanMark]
  | case17 rest continues => simp [scanMark, continues, Name.scan_lower]
  | case18 rest stays => simp [scanMark, stays]
  | case19 rest starts => simp [scanMark, starts, Name.scan_lower]
  | case20 rest stays => simp [scanMark, stays]
  | case21 first rest round roundEnd square squareEnd curly curlyEnd colon semicolon comma comment
      markup dollar star caret bar tilde hash atSign =>
      have single : ∀ {mark : Char}, mark.isAlpha = false → (first = mark → False) →
          first.toLower = mark → False :=
        fun noLetter other same => other ((toLower_eq_iff noLetter first).mp same)
      have markup' : ∀ tail, first.toLower = '<' →
          Text.lower rest = '!' :: '-' :: '-' :: tail → False := by
        intro tail front behind
        rcases Text.exists_of_lower_eq_cons (by decide) behind with ⟨second, rfl, later⟩
        rcases Text.exists_of_lower_eq_cons (by decide) later with ⟨third, rfl, last⟩
        rcases Text.exists_of_lower_eq_cons (by decide) last with ⟨fourth, rfl, _⟩
        exact markup fourth ((toLower_eq_iff (by decide) first).mp front) rfl
      have pair := @Text.not_marks_of_lower first
      rw [Text.lower_cons, scanMark.eq_19 _ _ (single (by decide) round)
        (single (by decide) roundEnd) (single (by decide) square) (single (by decide) squareEnd)
        (single (by decide) curly) (single (by decide) curlyEnd) (single (by decide) colon)
        (single (by decide) semicolon) (single (by decide) comma)
        (pair (by decide) (by decide) comment) markup' (pair (by decide) (by decide) dollar)
        (pair (by decide) (by decide) star) (pair (by decide) (by decide) caret)
        (pair (by decide) (by decide) bar) (pair (by decide) (by decide) tilde)
        (single (by decide) hash) (single (by decide) atSign)]
      simp [lower]
  | _ => simp [scanMark]

@[simp]
theorem startsMarkupClose_lower (text : List Char) :
    startsMarkupClose (Text.lower text) = startsMarkupClose text := by
  rw [Bool.eq_iff_iff, startsMarkupClose_iff, startsMarkupClose_iff]
  constructor
  · rintro ⟨tail, whole⟩
    rcases Text.exists_of_lower_eq_cons (by decide) whole with ⟨second, rfl, behindFirst⟩
    rcases Text.exists_of_lower_eq_cons (by decide) behindFirst with ⟨third, rfl, behindSecond⟩
    rcases Text.exists_of_lower_eq_cons (by decide) behindSecond with ⟨fourth, rfl, _⟩
    exact ⟨fourth, rfl⟩
  · rintro ⟨tail, rfl⟩
    exact ⟨Text.lower tail, rfl⟩

theorem scan_lower (text : List Char) :
    (scan (Text.lower text)).1.lower = (scan text).1.lower ∧
      (scan (Text.lower text)).2 = (scan text).2 := by
  match text with
  | [] => exact ⟨rfl, rfl⟩
  | first :: rest =>
      have close : startsMarkupClose (first.toLower :: Text.lower rest) =
          startsMarkupClose (first :: rest) := startsMarkupClose_lower (first :: rest)
      have numeral : Numeral.starts (first.toLower :: Text.lower rest) =
          Numeral.starts (first :: rest) := Numeral.starts_lower (first :: rest)
      have name : Name.starts (first.toLower :: Text.lower rest) =
          Name.starts (first :: rest) := Name.starts_lower (first :: rest)
      rw [Text.lower_cons, scan_cons, scan_cons, isSpace_toLower,
        toLower_beq (by decide), toLower_beq (by decide), close, numeral, name]
      split
      · exact ⟨rfl, rfl⟩
      · split
        · rename_i quoted
          have noLetter : first.isAlpha = false ∧ first.toLower = first := by
            have either : first = '"' ∨ first = '\'' := by simpa using quoted
            rcases either with rfl | rfl <;> decide
          rw [noLetter.2, scanString_lower noLetter.1]
          exact ⟨rfl, rfl⟩
        · split
          · exact scanNumeric_lower (first :: rest)
          · split
            · exact ⟨rfl, rfl⟩
            · split
              · exact scanName_lower (first :: rest)
              · exact scanMark_lower (first :: rest)

@[simp]
theorem isBlank_lower (token : Token) : token.lower.isBlank = token.isBlank := by
  cases token <;> rfl

@[simp]
theorem opens_lower (token : Token) : token.lower.opens = token.opens := by
  cases token <;> rfl

@[simp]
theorem nest_lower (brackets : List Bracket) (token : Token) :
    token.lower.nest brackets = token.nest brackets := by
  cases token <;> rfl

end Token

namespace Lexeme

/-- A lexeme in small letters. -/
def lower (lexeme : Lexeme) : Lexeme where
  token := lexeme.token.lower
  text := Text.lower lexeme.text

theorem lower_front (text : List Char) : (front (Text.lower text)).lower = (front text).lower := by
  rcases Token.scan_lower text with ⟨token, length⟩
  simp [front, lower, token, length, Text.lower_take]

/-- A text and its copy in small letters are made of the same lexemes up to letter case. -/
theorem map_lower_ofText (text : List Char) :
    (ofText (Text.lower text)).map lower = (ofText text).map lower := by
  induction text using ofText_induction with
  | nil => rfl
  | cons text nonempty ih =>
      have lowered : Text.lower text ≠ [] := by simpa [Text.lower] using nonempty
      rw [ofText_eq_cons nonempty, ofText_eq_cons lowered, (Token.scan_lower text).2,
        List.map_cons, List.map_cons, lower_front, ← Text.lower_drop, ih]

@[simp]
theorem textOf_map_lower (lexemes : List Lexeme) :
    textOf (lexemes.map lower) = Text.lower (textOf lexemes) := by
  simp only [textOf, List.flatMap_map, Text.lower, List.map_flatMap]
  rfl

@[simp]
theorem skipBlank_map_lower (lexemes : List Lexeme) :
    skipBlank (lexemes.map lower) = (skipBlank lexemes).map lower := by
  have same : isBlank ∘ lower = isBlank := funext fun lexeme => Token.isBlank_lower lexeme.token
  rw [skipBlank, List.dropWhile_map, same]
  rfl

theorem isClosed_lower {lexeme : Lexeme} (closed : lexeme.isClosed = true) :
    lexeme.lower.isClosed = true := by
  rcases lexeme with ⟨token, text⟩
  cases token with
  | string =>
      simp only [isClosed, Bool.and_eq_true, decide_eq_true_eq, beq_iff_eq] at closed
      simp [isClosed, lower, Token.lower, Text.lower, closed]
  | comment =>
      have ended := List.isSuffixOf_iff_suffix.mp closed
      apply List.isSuffixOf_iff_suffix.mpr
      have lowered := ended.map Char.toLower
      rw [List.map_drop] at lowered
      exact lowered
  | url =>
      simp only [isClosed, beq_iff_eq] at closed
      simp [isClosed, lower, Token.lower, Text.lower, closed]
  | brokenUrl =>
      simp only [isClosed, beq_iff_eq] at closed
      simp [isClosed, lower, Token.lower, Text.lower, closed]
  | brokenString => exact absurd closed (by simp [isClosed])
  | _ => rfl

theorem isClosed_of_lower {lexeme : Lexeme} (small : Text.lower lexeme.text = lexeme.text)
    (closed : lexeme.lower.isClosed = true) : lexeme.isClosed = true := by
  rcases lexeme with ⟨token, text⟩
  have kind : isClosed ⟨token.lower, text⟩ = isClosed ⟨token, text⟩ := by
    cases token <;> rfl
  rw [lower, small, kind] at closed
  exact closed

/-- Where all lexemes of a text have their end, so do those of its copy in small letters. -/
theorem isClosed_of_mem_ofText_lower {text : List Char}
    (closed : ∀ lexeme ∈ ofText text, lexeme.isClosed = true) {lexeme : Lexeme}
    (member : lexeme ∈ ofText (Text.lower text)) : lexeme.isClosed = true := by
  have lowered : lexeme.lower ∈ (ofText (Text.lower text)).map lower :=
    List.mem_map_of_mem member
  rw [map_lower_ofText] at lowered
  rcases List.mem_map.mp lowered with ⟨original, among, same⟩
  apply isClosed_of_lower
  · apply Text.lower_eq_self
    intro character inside
    apply Text.isUpper_of_mem_lower character
    rw [← textOf_ofText (Text.lower text)]
    exact List.mem_flatMap.mpr ⟨lexeme, member, inside⟩
  · rw [← same]
    exact isClosed_lower (closed original among)

@[simp]
theorem nestAll_map_lower (brackets : List Bracket) (lexemes : List Lexeme) :
    nestAll brackets (lexemes.map lower) = nestAll brackets lexemes := by
  induction lexemes generalizing brackets with
  | nil => rfl
  | cons lexeme rest ih => simp [lower, ih]

@[simp]
theorem blockContent_map_lower (brackets : List Bracket) (lexemes : List Lexeme) :
    blockContent brackets (lexemes.map lower) = (blockContent brackets lexemes).map lower := by
  induction lexemes generalizing brackets with
  | nil => rfl
  | cons lexeme rest ih =>
      rw [List.map_cons, blockContent_cons, blockContent_cons]
      by_cases closes : lexeme.token.nest brackets = []
      · simp [lower, closes]
      · simp [lower, closes, ih]

theorem Fills.lower {bracket : Bracket} {text : List Char}
    (fills : Fills bracket (ofText text)) : Fills bracket (ofText (Text.lower text)) where
  inside := by
    have lengths := congrArg List.length (map_lower_ofText text)
    rw [List.length_map, List.length_map] at lengths
    apply (blockContent_isPrefix _ _).eq_of_length
    have contents := congrArg (blockContent [bracket]) (map_lower_ofText text)
    rw [blockContent_map_lower, blockContent_map_lower, fills.inside] at contents
    have counts := congrArg List.length contents
    rw [List.length_map, List.length_map] at counts
    rw [counts, lengths]
  level := by
    rw [← nestAll_map_lower, map_lower_ofText, nestAll_map_lower, fills.level]

end Lexeme

end MediaQuery
