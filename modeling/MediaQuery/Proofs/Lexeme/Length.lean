import MediaQuery.Lexeme.Scan

/-!
# How far the front lexeme reaches

Every scanner stays within the text that it is given, and the token at the front
of a text that is not empty takes at least one character. A text is therefore its
front lexeme and the lexemes of what is left, which is how all later proofs go
through a text.
-/

namespace MediaQuery

namespace Name

theorem scanFrom_succ (skip : Nat) (first : Char) (rest : List Char) :
    scanFrom (skip + 1) (first :: rest) =
      ((scanFrom skip rest).1, (scanFrom skip rest).2 + 1) :=
  rfl

theorem scanFrom_part {first : Char} (part : Character.isNamePart first = true)
    (rest : List Char) :
    scanFrom 0 (first :: rest) =
      (Character.shown first :: (scanFrom 0 rest).1, (scanFrom 0 rest).2 + 1) := by
  simp [scanFrom, part]

theorem scanFrom_escape {rest : List Char} (continues : continuesEscape rest = true) :
    scanFrom 0 ('\\' :: rest) =
      ((escape rest).1 :: (scanFrom (escape rest).2 rest).1,
        (scanFrom (escape rest).2 rest).2 + 1) := by
  have noPart : Character.isNamePart '\\' = false := by decide
  simp [scanFrom, noPart, continues]

theorem scanFrom_stop {first : Char} {rest : List Char}
    (noPart : Character.isNamePart first = false)
    (noEscape : (first == '\\' && continuesEscape rest) = false) :
    scanFrom 0 (first :: rest) = ([], 0) := by
  simp only [scanFrom, noPart, noEscape]
  rfl

theorem scanFrom_length_le (skip : Nat) (text : List Char) :
    (scanFrom skip text).2 ≤ text.length := by
  induction text generalizing skip with
  | nil => simp [scanFrom]
  | cons first rest ih =>
      cases skip with
      | succ skip => simpa [scanFrom_succ] using ih skip
      | zero =>
          by_cases part : Character.isNamePart first = true
          · simpa [scanFrom_part part] using ih 0
          · by_cases continues : (first == '\\' && continuesEscape rest) = true
            · simp only [Bool.and_eq_true, beq_iff_eq] at continues
              rcases continues with ⟨rfl, continues⟩
              simpa [scanFrom_escape continues] using ih (escape rest).2
            · rw [scanFrom_stop (by simpa using part) (by simpa using continues)]
              exact Nat.zero_le _

theorem scan_length_le (text : List Char) : (scan text).2 ≤ text.length :=
  scanFrom_length_le 0 text

theorem isNamePart_of_isNameStart {character : Char}
    (start : Character.isNameStart character = true) :
    Character.isNamePart character = true := by
  simp [Character.isNamePart, start]

theorem starts_hyphen {next : Char} (noBackslash : next ≠ '\\') (rest : List Char) :
    starts ('-' :: next :: rest) = (Character.isNameStart next || next == '-') :=
  starts.eq_2 next rest noBackslash

theorem starts_cons {first : Char} (noHyphen : first ≠ '-') (noBackslash : first ≠ '\\')
    (rest : List Char) : starts (first :: rest) = Character.isNameStart first :=
  starts.eq_4 first rest (fun _ hyphen => absurd hyphen noHyphen)
    (fun _ _ hyphen => absurd hyphen noHyphen) noBackslash

theorem scan_length_pos {text : List Char} (starts : starts text = true) :
    0 < (scan text).2 := by
  have hyphen : Character.isNamePart '-' = true := by decide
  unfold scan
  match text, starts with
  | '-' :: rest, _ => simp [scanFrom_part hyphen]
  | '\\' :: rest, continues => simp [scanFrom_escape (by simpa [Name.starts] using continues)]
  | first :: rest, start =>
      by_cases minus : first = '-'
      · subst minus
        simp [scanFrom_part hyphen]
      · by_cases backslash : first = '\\'
        · subst backslash
          simp [scanFrom_escape (by simpa [Name.starts] using start)]
        · have nameStart : Character.isNameStart first = true := by
            simpa [Name.starts, minus, backslash] using start
          simp [scanFrom_part (isNamePart_of_isNameStart nameStart)]

end Name

namespace Numeral

theorem signLength_le (text : List Char) : signLength text ≤ text.length := by
  unfold signLength
  split <;> simp

theorem length_fractionDigits_lt {text : List Char} (present : fractionDigits text ≠ []) :
    (fractionDigits text).length < text.length := by
  match text with
  | [] => simp [fractionDigits] at present
  | first :: rest =>
      by_cases point : first = '.'
      · subst point
        have taken := (List.takeWhile_sublist (l := rest) Char.isDigit).length_le
        simp only [fractionDigits, List.length_cons]
        omega
      · simp [fractionDigits, point] at present

theorem scanExponent_length_le (text : List Char) : (scanExponent text).2 ≤ text.length := by
  match text with
  | [] => simp [scanExponent]
  | marker :: rest =>
      have sign := signLength_le rest
      have digits :=
        (List.takeWhile_sublist (l := rest.drop (signLength rest)) Char.isDigit).length_le
      simp only [List.length_drop] at digits
      simp only [scanExponent, List.length_cons]
      split
      · simp only
        omega
      · simp

/-- The length of the fraction of a numeral, its point included. -/
def fractionLength (text : List Char) : Nat :=
  if (fractionDigits text).isEmpty then 0 else 1 + (fractionDigits text).length

theorem fractionLength_le (text : List Char) : fractionLength text ≤ text.length := by
  unfold fractionLength
  split
  · exact Nat.zero_le _
  · rename_i present
    have shorter := length_fractionDigits_lt (by simpa using present)
    omega

/-- The whole digits of the numeral at the front of a text. -/
def wholeDigits (text : List Char) : List Char :=
  (text.drop (signLength text)).takeWhile Char.isDigit

/-- What follows the whole digits of the numeral at the front of a text. -/
def afterWhole (text : List Char) : List Char :=
  text.drop (signLength text + (wholeDigits text).length)

/-- What follows the fraction of the numeral at the front of a text. -/
def afterFraction (text : List Char) : List Char :=
  (afterWhole text).drop (fractionLength (afterWhole text))

theorem scan_eq (text : List Char) :
    scan text =
      ({ negative := startsNegative text
         whole := (wholeDigits text).map digitValue
         fraction := (fractionDigits (afterWhole text)).map digitValue
         exponent := (scanExponent (afterFraction text)).1 },
       signLength text + (wholeDigits text).length + fractionLength (afterWhole text) +
         (scanExponent (afterFraction text)).2) :=
  rfl

theorem scan_length_le (text : List Char) : (scan text).2 ≤ text.length := by
  have sign := signLength_le text
  have whole := (List.takeWhile_sublist (l := text.drop (signLength text)) Char.isDigit).length_le
  have fraction := fractionLength_le (afterWhole text)
  have exponent := scanExponent_length_le (afterFraction text)
  simp only [afterFraction, afterWhole, wholeDigits, List.length_drop] at whole fraction exponent
  simp only [scan_eq, afterFraction, afterWhole, wholeDigits]
  omega

theorem signLength_cons (first : Char) (rest : List Char) :
    signLength (first :: rest) = if first = '+' ∨ first = '-' then 1 else 0 := by
  unfold signLength
  split <;> simp_all

theorem startsNegative_cons (first : Char) (rest : List Char) :
    startsNegative (first :: rest) = decide (first = '-') := by
  unfold startsNegative
  split <;> simp_all

theorem startsUnsigned_cons (first : Char) (rest : List Char) :
    startsUnsigned (first :: rest) =
      if first = '.' then (rest.head?.map Char.isDigit).getD false else first.isDigit := by
  by_cases point : first = '.'
  · subst point
    cases rest with
    | nil => decide
    | cons next rest => simp [startsUnsigned]
  · simp [startsUnsigned, point]

theorem scan_length_pos {text : List Char} (starts : starts text = true) :
    0 < (scan text).2 := by
  simp only [scan_eq, afterWhole, wholeDigits]
  unfold Numeral.starts at starts
  rcases unsigned : text.drop (signLength text) with _ | ⟨first, rest⟩
  · simp [unsigned, startsUnsigned] at starts
  · rw [unsigned, startsUnsigned_cons] at starts
    split at starts
    · rename_i point
      subst point
      have noWhole : (('.' :: rest).takeWhile Char.isDigit).length = 0 := by
        simp [show Char.isDigit '.' = false by decide]
      rw [noWhole, Nat.add_zero, unsigned]
      match rest, starts with
      | digit :: rest, isDigit =>
          have isDigit : digit.isDigit = true := isDigit
          have fraction : 0 < fractionLength ('.' :: digit :: rest) := by
            rw [fractionLength, fractionDigits, List.takeWhile_cons_of_pos isDigit]
            exact Nat.add_pos_left Nat.one_pos _
          omega
    · have whole : 0 < ((first :: rest).takeWhile Char.isDigit).length := by
        simp [starts]
      omega

end Numeral

namespace Token

@[simp]
theorem lengthen_fst (more : Nat) (scanned : Token × Nat) :
    (lengthen more scanned).1 = scanned.1 :=
  rfl

@[simp]
theorem lengthen_snd (more : Nat) (scanned : Token × Nat) :
    (lengthen more scanned).2 = scanned.2 + more :=
  rfl

theorem commentLength_le (text : List Char) : commentLength text ≤ text.length := by
  fun_induction commentLength text with
  | case1 => simp
  | case2 rest => simp
  | case3 first rest notEnd ih => simpa using ih

theorem scanString_length_le (quote : Char) (skip : Nat) (text : List Char) :
    (scanString quote skip text).2 ≤ text.length := by
  fun_induction scanString quote skip text with
  | case1 => simp
  | case2 skip first rest ih => simpa using ih
  | case3 => simp
  | case4 => simp
  | case5 first rest notQuote notNewline escapes ih => simpa using ih
  | case6 first rest notQuote notNewline notBackslash ih => simpa using ih

theorem brokenUrlLength_le (text : List Char) : brokenUrlLength text ≤ text.length := by
  fun_induction brokenUrlLength text with
  | case1 => simp
  | case2 rest => simp
  | case3 rest ih => simpa using ih
  | case4 rest ih => simpa using ih
  | case5 first rest notClose notEscapedClose notEscaped ih => simpa using ih

theorem scanUrlEnd_length_le (text : List Char) : (scanUrlEnd text).2 ≤ text.length := by
  fun_induction scanUrlEnd text with
  | case1 => simp
  | case2 first rest space ih => simpa using ih
  | case3 => simp
  | case4 first rest notSpace notEnd => simpa using brokenUrlLength_le rest

theorem scanUrl_length_le (skip : Nat) (text : List Char) :
    (scanUrl skip text).2 ≤ text.length := by
  fun_induction scanUrl skip text with
  | case1 => simp
  | case2 skip first rest ih => simpa using ih
  | case3 => simp
  | case4 first rest notEnd space => simpa using scanUrlEnd_length_le rest
  | case5 first rest => simpa using brokenUrlLength_le rest
  | case6 first rest notEnd notSpace plain backslash escapes ih => simpa using ih
  | case7 first rest => simpa using brokenUrlLength_le rest
  | case8 first rest notEnd notSpace plain notBackslash ih => simpa using ih

theorem scanName_length_le (text : List Char) : (scanName text).2 ≤ text.length := by
  have name := Name.scan_length_le text
  unfold scanName
  simp only
  split
  · rename_i rest opened
    have shorter := congrArg List.length opened
    simp only [List.length_drop, List.length_cons] at shorter
    have gap := (List.takeWhile_sublist (l := rest) Character.isSpace).length_le
    have url := scanUrl_length_le 0 (rest.drop (rest.takeWhile Character.isSpace).length)
    simp only [List.length_drop] at url
    split
    · simp only [lengthen_snd]
      omega
    · simp only
      omega
  · exact name

theorem scanName_length_pos {text : List Char} (starts : Name.starts text = true) :
    0 < (scanName text).2 := by
  have name := Name.scan_length_pos starts
  unfold scanName
  simp only
  split
  · split
    · simp only [lengthen_snd]
      omega
    · exact Nat.succ_pos _
  · exact name

theorem scanNumeric_eq (text : List Char) :
    scanNumeric text =
      if (text.drop (Numeral.scan text).2).head? = some '%' then
        (.percentage (Numeral.scan text).1, (Numeral.scan text).2 + 1)
      else if Name.starts (text.drop (Numeral.scan text).2) then
        (.dimension (Numeral.scan text).1 (Name.scan (text.drop (Numeral.scan text).2)).1,
          (Numeral.scan text).2 + (Name.scan (text.drop (Numeral.scan text).2)).2)
      else
        (.number (Numeral.scan text).1, (Numeral.scan text).2) :=
  rfl

theorem scanNumeric_length_le (text : List Char) : (scanNumeric text).2 ≤ text.length := by
  have numeral := Numeral.scan_length_le text
  have unit := Name.scan_length_le (text.drop (Numeral.scan text).2)
  simp only [List.length_drop] at unit
  rw [scanNumeric_eq]
  split
  · rename_i percent
    rcases rest : text.drop (Numeral.scan text).2 with _ | ⟨first, tail⟩
    · simp [rest] at percent
    · have shorter := congrArg List.length rest
      simp only [List.length_drop, List.length_cons] at shorter ⊢
      omega
  · split
    · simp only
      omega
    · exact numeral

theorem scanNumeric_length_pos {text : List Char} (starts : Numeral.starts text = true) :
    0 < (scanNumeric text).2 := by
  have numeral := Numeral.scan_length_pos starts
  rw [scanNumeric_eq]
  split
  · exact Nat.succ_pos _
  · split
    · simp only
      omega
    · exact numeral

theorem scanMark_length_le (text : List Char) : (scanMark text).2 ≤ text.length := by
  fun_cases scanMark text <;> simp
  · rename_i rest
    exact commentLength_le rest
  · rename_i rest _
    exact Name.scan_length_le rest
  · rename_i rest _
    exact Name.scan_length_le rest

theorem scanMark_length_pos {text : List Char} (nonempty : text ≠ []) :
    0 < (scanMark text).2 := by
  fun_cases scanMark text <;> simp_all

theorem scan_cons (first : Char) (rest : List Char) :
    scan (first :: rest) =
      if Character.isSpace first then (.space, 1)
      else if first == '"' || first == '\'' then lengthen 1 (scanString first 0 rest)
      else if Numeral.starts (first :: rest) then scanNumeric (first :: rest)
      else if startsMarkupClose (first :: rest) then (.markupClose, 3)
      else if Name.starts (first :: rest) then scanName (first :: rest)
      else scanMark (first :: rest) :=
  rfl

theorem startsMarkupClose_iff {text : List Char} :
    startsMarkupClose text = true ↔ ∃ tail, text = '-' :: '-' :: '>' :: tail := by
  constructor
  · intro close
    unfold startsMarkupClose at close
    split at close
    · rename_i tail
      exact ⟨tail, rfl⟩
    · simp at close
  · rintro ⟨tail, rfl⟩
    rfl

/-- What a token is read as, by how the text in front of it starts. -/
theorem scan_cases {motive : List Char → Token × Nat → Prop}
    (space : ∀ first rest, Character.isSpace first = true → motive (first :: rest) (.space, 1))
    (string : ∀ quote rest, quote = '"' ∨ quote = '\'' →
      motive (quote :: rest) (lengthen 1 (scanString quote 0 rest)))
    (numeric : ∀ text, Numeral.starts text = true → motive text (scanNumeric text))
    (markupClose : ∀ rest, motive ('-' :: '-' :: '>' :: rest) (.markupClose, 3))
    (name : ∀ text, Name.starts text = true → motive text (scanName text))
    (mark : ∀ first rest, Character.isSpace first = false →
      motive (first :: rest) (scanMark (first :: rest)))
    {text : List Char} (nonempty : text ≠ []) : motive text (scan text) := by
  rcases List.exists_cons_of_ne_nil nonempty with ⟨first, rest, rfl⟩
  rw [scan_cons]
  split
  · rename_i blank
    exact space first rest blank
  · rename_i noSpace
    split
    · rename_i quoted
      exact string first rest (by simpa using quoted)
    · split
      · rename_i starts
        exact numeric _ starts
      · split
        · rename_i close
          rcases startsMarkupClose_iff.mp close with ⟨tail, whole⟩
          rw [whole]
          exact markupClose tail
        · split
          · rename_i starts
            exact name _ starts
          · exact mark first rest (by simpa using noSpace)

theorem scan_length_le (text : List Char) : (scan text).2 ≤ text.length := by
  by_cases nonempty : text = []
  · simp [nonempty, scan]
  · apply scan_cases (motive := fun text scanned => scanned.2 ≤ text.length) _ _ _ _ _ _ nonempty
    · intro first rest _
      simp
    · intro quote rest _
      simpa using scanString_length_le quote 0 rest
    · intro text _
      exact scanNumeric_length_le text
    · intro rest
      simp
    · intro text _
      exact scanName_length_le text
    · intro first rest _
      exact scanMark_length_le (first :: rest)

theorem scan_length_pos {text : List Char} (nonempty : text ≠ []) : 0 < (scan text).2 := by
  apply scan_cases (motive := fun _ scanned => 0 < scanned.2) _ _ _ _ _ _ nonempty
  · intro first rest _
    exact Nat.one_pos
  · intro quote rest _
    exact Nat.succ_pos _
  · intro text starts
    exact scanNumeric_length_pos starts
  · intro rest
    exact Nat.succ_pos _
  · intro text starts
    exact scanName_length_pos starts
  · intro first rest _
    exact scanMark_length_pos (List.cons_ne_nil first rest)

end Token

namespace Lexeme

/-- The lexeme at the front of a text. -/
def front (text : List Char) : Lexeme where
  token := (Token.scan text).1
  text := text.take (Token.scan text).2

theorem length_text_front (text : List Char) : (front text).text.length = (Token.scan text).2 := by
  simp [front, Token.scan_length_le text]

@[simp]
theorem ofText_nil : ofText [] = [] :=
  rfl

theorem ofTextFrom_eq (skip : Nat) (text : List Char) :
    ofTextFrom skip text = ofText (text.drop skip) := by
  induction text generalizing skip with
  | nil => simp [ofTextFrom, ofText]
  | cons first rest ih =>
      cases skip with
      | zero => rfl
      | succ skip => simpa [ofTextFrom] using ih skip

/-- A text is its front lexeme and the lexemes of what is left. -/
theorem ofText_eq_cons {text : List Char} (nonempty : text ≠ []) :
    ofText text = front text :: ofText (text.drop (Token.scan text).2) := by
  have positive := Token.scan_length_pos nonempty
  rcases List.exists_cons_of_ne_nil nonempty with ⟨first, rest, rfl⟩
  rcases Nat.exists_eq_add_of_lt positive with ⟨length, same⟩
  have taken : (Token.scan (first :: rest)).2 = length + 1 := by omega
  rw [ofText, ofTextFrom]
  simp only [front, taken, List.take_succ_cons, List.drop_succ_cons, Nat.add_sub_cancel,
    ofTextFrom_eq]

@[simp]
theorem front_mem {text : List Char} (nonempty : text ≠ []) : front text ∈ ofText text := by
  rw [ofText_eq_cons nonempty]
  exact List.mem_cons_self

theorem ofText_eq_nil_iff {text : List Char} : ofText text = [] ↔ text = [] := by
  constructor
  · intro none
    have spelled := textOf_ofText text
    rw [none] at spelled
    exact spelled.symm
  · rintro rfl
    rfl

/-- Texts are taken apart one front lexeme after the other. -/
theorem ofText_induction {motive : List Char → Prop} (nil : motive [])
    (cons : ∀ text, text ≠ [] → motive (text.drop (Token.scan text).2) → motive text)
    (text : List Char) : motive text := by
  induction size : text.length using Nat.strongRecOn generalizing text with
  | ind size ih =>
      by_cases nonempty : text = []
      · rw [nonempty]
        exact nil
      · have positive := Token.scan_length_pos nonempty
        have within := Token.scan_length_le text
        apply cons text nonempty
        exact ih _ (by rw [List.length_drop]; omega) _ rfl

/-- Every lexeme of a text stands at the front of some rest of the text. -/
theorem exists_front_of_mem {text : List Char} {lexeme : Lexeme} (member : lexeme ∈ ofText text) :
    ∃ rest, rest <:+ text ∧ rest ≠ [] ∧ lexeme = front rest := by
  induction text using ofText_induction with
  | nil => simp at member
  | cons text nonempty ih =>
      rw [ofText_eq_cons nonempty, List.mem_cons] at member
      rcases member with here | later
      · exact ⟨text, List.suffix_refl _, nonempty, here⟩
      · rcases ih later with ⟨rest, suffix, found, same⟩
        exact ⟨rest, suffix.trans (List.drop_suffix _ _), found, same⟩

theorem text_ne_nil_of_mem_ofText {text : List Char} {lexeme : Lexeme}
    (member : lexeme ∈ ofText text) : lexeme.text ≠ [] := by
  rcases exists_front_of_mem member with ⟨rest, _, nonempty, rfl⟩
  apply List.ne_nil_of_length_pos
  rw [length_text_front]
  exact Token.scan_length_pos nonempty

end Lexeme

end MediaQuery
