import MediaQuery.Proofs.Lexeme.Word

/-!
# Texts that end early

What follows a text may make what is read at its front longer, but never shorter: a name or a
numeral that ends within a text is the same when what follows the text is left out, and the sign
that ends a string, a comment or an address is in the text if they end within it.
-/

namespace MediaQuery

namespace Text

/-- A run of characters that ends within a text is a run of this text. -/
theorem takeWhile_of_append {text more : List Char} {belongs : Char → Bool}
    (inside : ((text ++ more).takeWhile belongs).length ≤ text.length) :
    text.takeWhile belongs = (text ++ more).takeWhile belongs := by
  rw [List.takeWhile_append] at inside ⊢
  split
  · rename_i whole
    rw [if_pos whole, List.length_append] at inside
    have nothing : more.takeWhile belongs = [] := List.eq_nil_of_length_eq_zero (by omega)
    have all : text.takeWhile belongs = text :=
      (List.takeWhile_prefix belongs).eq_of_length whole
    rw [nothing, List.append_nil, all]
  · rfl

end Text

namespace Name

theorem starts_append_of_starts {text : List Char} (plain : '\\' ∉ text)
    (starts : starts text = true) (more : List Char) : Name.starts (text ++ more) = true := by
  rcases starts_cases plain starts with ⟨first, rest, rfl, start⟩ | ⟨next, rest, rfl, start⟩
  · have other := fun mark noStart => @Character.ne_of_isNameStart first mark start noStart
    rw [List.cons_append, starts_cons (other '-' (by decide)) (other '\\' (by decide)), start]
  · have noBackslash : next ≠ '\\' := by
      rintro rfl
      simp at plain
    rw [List.cons_append, List.cons_append, starts_hyphen noBackslash]
    simpa using start

theorem scan_of_append {text more : List Char} (plain : '\\' ∉ text ++ more)
    (inside : (scan (text ++ more)).2 ≤ text.length) : scan text = scan (text ++ more) := by
  have plainText : '\\' ∉ text := fun member => plain (List.mem_append_left _ member)
  rw [scan_eq_of_plain plain] at inside ⊢
  rw [scan_eq_of_plain plainText, Text.takeWhile_of_append inside]

/-- Two characters at most show that a name starts, and both belong to it. -/
theorem starts_of_append {text more : List Char} (plain : '\\' ∉ text ++ more)
    (inside : (scan (text ++ more)).2 ≤ text.length)
    (starts : starts (text ++ more) = true) : Name.starts text = true := by
  have positive := scan_length_pos starts
  rw [scan_eq_of_plain plain] at inside
  match text with
  | [] =>
      rw [scan_eq_of_plain plain] at positive
      exact absurd positive (Nat.not_lt.mpr inside)
  | first :: rest =>
      rcases starts_cases plain starts with ⟨front, tail, whole, start⟩ | ⟨next, tail, whole, start⟩
      · rw [List.cons_append, List.cons.injEq] at whole
        rcases whole with ⟨rfl, _⟩
        have other := fun mark noStart => @Character.ne_of_isNameStart first mark start noStart
        rw [starts_cons (other '-' (by decide)) (other '\\' (by decide)), start]
      · rw [List.cons_append, List.cons.injEq] at whole
        rcases whole with ⟨rfl, behind⟩
        have hyphen : Character.isNamePart '-' = true := by decide
        have part : Character.isNamePart next = true := by
          rcases start with start | rfl
          · exact isNamePart_of_isNameStart start
          · decide
        match rest with
        | [] =>
            rw [List.nil_append] at behind
            simp [behind, hyphen, part] at inside
        | second :: rest =>
            rw [List.cons_append, List.cons.injEq] at behind
            rcases behind with ⟨rfl, _⟩
            have noBackslash : second ≠ '\\' := by
              rintro rfl
              simp at plain
            rw [starts_hyphen noBackslash]
            simpa using start

end Name

namespace Numeral

theorem signLength_append_of_ne_nil {text : List Char} (nonempty : text ≠ []) (more : List Char) :
    signLength (text ++ more) = signLength text := by
  rcases List.exists_cons_of_ne_nil nonempty with ⟨first, rest, rfl⟩
  rw [List.cons_append, signLength_cons, signLength_cons]

theorem startsNegative_append_of_ne_nil {text : List Char} (nonempty : text ≠ [])
    (more : List Char) : startsNegative (text ++ more) = startsNegative text := by
  rcases List.exists_cons_of_ne_nil nonempty with ⟨first, rest, rfl⟩
  rw [List.cons_append, startsNegative_cons, startsNegative_cons]

theorem starts_append_of_starts {text : List Char} (starts : starts text = true)
    (more : List Char) : Numeral.starts (text ++ more) = true := by
  have nonempty : text ≠ [] := by
    rintro rfl
    exact absurd starts (by decide)
  unfold Numeral.starts at starts ⊢
  rw [signLength_append_of_ne_nil nonempty, List.drop_append_of_le_length (signLength_le text)]
  match rest : text.drop (signLength text) with
  | [] =>
      rw [rest] at starts
      exact absurd starts (by decide)
  | [first] =>
      rw [rest, startsUnsigned_cons] at starts
      have noPoint : first ≠ '.' := by
        rintro rfl
        simp at starts
      rw [if_neg noPoint] at starts
      simp [startsUnsigned_cons, noPoint, starts]
  | first :: next :: tail =>
      rw [rest, startsUnsigned_cons] at starts
      simpa [startsUnsigned_cons] using starts

/-- A numeral starts where it has a digit before its point or behind it. -/
theorem starts_iff (text : List Char) :
    starts text = true ↔ wholeDigits text ≠ [] ∨ fractionDigits (afterWhole text) ≠ [] := by
  unfold Numeral.starts afterWhole wholeDigits
  rw [← List.drop_drop]
  match text.drop (signLength text) with
  | [] => simp [startsUnsigned, fractionDigits]
  | first :: rest =>
      rw [startsUnsigned_cons]
      by_cases point : first = '.'
      · subst point
        have noDigit : Char.isDigit '.' = false := by decide
        cases rest with
        | nil => simp [noDigit, fractionDigits]
        | cons next rest =>
            by_cases digit : next.isDigit = true <;> simp [noDigit, fractionDigits, digit]
      · by_cases digit : first.isDigit = true
        · simp [point, digit]
        · simp [point, digit, fractionDigits]

variable {text more : List Char}

theorem wholeDigits_of_append (nonempty : text ≠ [])
    (inside : signLength (text ++ more) + (wholeDigits (text ++ more)).length ≤ text.length) :
    wholeDigits text = wholeDigits (text ++ more) := by
  unfold wholeDigits at inside ⊢
  rw [signLength_append_of_ne_nil nonempty,
    List.drop_append_of_le_length (signLength_le text)] at inside ⊢
  apply Text.takeWhile_of_append
  rw [List.length_drop]
  omega

theorem fractionDigits_of_append (inside : fractionLength (text ++ more) ≤ text.length) :
    fractionDigits text = fractionDigits (text ++ more) := by
  unfold fractionLength at inside
  match text with
  | [] =>
      by_cases nothing : fractionDigits more = []
      · exact nothing.symm
      · simp [nothing] at inside
  | first :: rest =>
      by_cases point : first = '.'
      · subst point
        apply Text.takeWhile_of_append
        simp only [List.cons_append, fractionDigits, List.length_cons, List.isEmpty_iff] at inside
        split at inside
        · rename_i nothing
          simp [nothing]
        · omega
      · simp [fractionDigits, point]

theorem scanExponent_cons (marker : Char) (rest : List Char) :
    scanExponent (marker :: rest) =
      if (marker == 'e' || marker == 'E') && !(wholeDigits rest).isEmpty then
        (some (if startsNegative rest then -(ofDigits ((wholeDigits rest).map digitValue) : Int)
          else ofDigits ((wholeDigits rest).map digitValue)),
          1 + signLength rest + (wholeDigits rest).length)
      else
        (none, 0) :=
  rfl

theorem scanExponent_of_append (inside : (scanExponent (text ++ more)).2 ≤ text.length) :
    scanExponent text = scanExponent (text ++ more) := by
  match text with
  | [] =>
      match more with
      | [] => rfl
      | marker :: rest =>
          rw [List.nil_append, scanExponent_cons] at inside ⊢
          split at inside
          · simp at inside
          · rename_i absent
            rw [if_neg absent]
            rfl
  | marker :: rest =>
      rw [List.cons_append, scanExponent_cons] at inside
      rw [List.cons_append, scanExponent_cons, scanExponent_cons]
      by_cases nothing : wholeDigits (rest ++ more) = []
      · have none : wholeDigits rest = [] := by
          by_cases nonempty : rest = []
          · rw [nonempty]
            rfl
          · rw [wholeDigits_of_append nonempty, nothing]
            rw [nothing, signLength_append_of_ne_nil nonempty]
            exact signLength_le rest
        simp [nothing, none]
      · by_cases marked : (marker == 'e' || marker == 'E') = true
        · have positive := List.length_pos_of_ne_nil nothing
          simp only [marked, List.isEmpty_eq_false_iff.mpr nothing, Bool.not_false, Bool.and_self,
            if_true, List.length_cons] at inside
          have nonempty : rest ≠ [] := by
            rintro rfl
            simp only [List.length_nil] at inside
            omega
          have digits : wholeDigits rest = wholeDigits (rest ++ more) :=
            wholeDigits_of_append nonempty (by omega)
          rw [digits, signLength_append_of_ne_nil nonempty,
            startsNegative_append_of_ne_nil nonempty]
        · simp [marked]

/-- A numeral that ends within a text is the same if the text ends there. -/
theorem scan_of_append (nonempty : text ≠ []) (inside : (scan (text ++ more)).2 ≤ text.length) :
    scan text = scan (text ++ more) ∧ starts text = starts (text ++ more) := by
  rw [scan_eq] at inside
  simp only at inside
  have whole : wholeDigits text = wholeDigits (text ++ more) :=
    wholeDigits_of_append nonempty (by omega)
  have sign := signLength_append_of_ne_nil nonempty more
  have within := signLength_add_length_wholeDigits_le text
  have behindWhole : afterWhole (text ++ more) = afterWhole text ++ more := by
    unfold afterWhole
    rw [sign, ← whole, List.drop_append_of_le_length within]
  have rest : (afterWhole text).length =
      text.length - (signLength text + (wholeDigits text).length) := List.length_drop
  rw [sign, ← whole, behindWhole] at inside
  have fraction : fractionDigits (afterWhole text) = fractionDigits (afterWhole text ++ more) :=
    fractionDigits_of_append (by omega)
  have fractions : fractionLength (afterWhole text ++ more) = fractionLength (afterWhole text) := by
    unfold fractionLength
    rw [fraction]
  have behindFraction : afterFraction (text ++ more) = afterFraction text ++ more := by
    unfold afterFraction
    rw [behindWhole, fractions, List.drop_append_of_le_length (fractionLength_le _)]
  have tail : (afterFraction text).length =
      (afterWhole text).length - fractionLength (afterWhole text) := List.length_drop
  rw [behindFraction, fractions] at inside
  have exponent : scanExponent (afterFraction text) = scanExponent (afterFraction text ++ more) :=
    scanExponent_of_append (by omega)
  constructor
  · rw [scan_eq, scan_eq, behindWhole, behindFraction, sign, fractions, ← whole, ← fraction,
      ← exponent, startsNegative_append_of_ne_nil nonempty]
  · rw [Bool.eq_iff_iff, starts_iff, starts_iff, behindWhole, ← whole, ← fraction]

end Numeral

namespace Token

open Character

variable {text more : List Char}

/-- Once the quote or the newline that ends a string is in sight, nothing behind it counts. -/
theorem scanString_append_of_end {quote : Char} (plain : '\\' ∉ text)
    (ended : ∃ character ∈ text, character = quote ∨ isNewline character = true)
    (after : List Char) : scanString quote 0 (text ++ after) = scanString quote 0 text := by
  induction text with
  | nil => simp at ended
  | cons first rest ih =>
      have noBackslash := (List.ne_of_not_mem_cons plain).symm
      by_cases atQuote : first = quote
      · simp [scanString, atQuote]
      by_cases newline : isNewline first = true
      · simp [scanString, atQuote, newline]
      have endedRest : ∃ character ∈ rest, character = quote ∨ isNewline character = true := by
        simpa [atQuote, newline] using ended
      simp [scanString, atQuote, newline, noBackslash,
        ih (List.not_mem_of_not_mem_cons plain) endedRest]

theorem exists_end_of_scanString {quote : Char} (plain : '\\' ∉ text) (goesOn : more ≠ [])
    (inside : (scanString quote 0 (text ++ more)).2 ≤ text.length)
    (cutOff : (scanString quote 0 (text ++ more)).1 = .brokenString →
      (scanString quote 0 (text ++ more)).2 < text.length) :
    ∃ character ∈ text, character = quote ∨ isNewline character = true := by
  induction text with
  | nil =>
      rcases List.exists_cons_of_ne_nil goesOn with ⟨first, rest, rfl⟩
      rw [List.nil_append, scanString] at inside cutOff
      split at inside
      · simp at inside
      split at inside
      · rename_i noQuote newline
        simp [noQuote, newline] at cutOff
      split at inside <;> simp at inside
  | cons first rest ih =>
      have noBackslash := (List.ne_of_not_mem_cons plain).symm
      by_cases atQuote : first = quote
      · exact ⟨first, List.mem_cons_self, Or.inl atQuote⟩
      by_cases newline : isNewline first = true
      · exact ⟨first, List.mem_cons_self, Or.inr newline⟩
      simp only [List.cons_append, scanString, beq_iff_eq, atQuote, newline, noBackslash,
        if_false, Bool.false_eq_true, lengthen_snd, lengthen_fst, List.length_cons,
        Nat.add_le_add_iff_right, Nat.add_lt_add_iff_right] at inside cutOff
      rcases ih (List.not_mem_of_not_mem_cons plain) inside cutOff with ⟨character, member, ends⟩
      exact ⟨character, List.mem_cons_of_mem _ member, ends⟩

theorem getLast?_of_scanString {quote : Char} (plain : '\\' ∉ text) (goesOn : more ≠ [])
    (inside : (scanString quote 0 (text ++ more)).2 ≤ text.length)
    (string : (scanString quote 0 (text ++ more)).1 = .string) :
    (text.take (scanString quote 0 (text ++ more)).2).getLast? = some quote := by
  induction text with
  | nil =>
      rcases List.exists_cons_of_ne_nil goesOn with ⟨first, rest, rfl⟩
      rw [List.nil_append, scanString] at inside string
      split at inside
      · simp at inside
      split at inside
      · rename_i noQuote newline
        simp [noQuote, newline] at string
      split at inside <;> simp at inside
  | cons first rest ih =>
      have noBackslash := (List.ne_of_not_mem_cons plain).symm
      by_cases atQuote : first = quote
      · simp [scanString, atQuote]
      by_cases newline : isNewline first = true
      · simp [scanString, atQuote, newline] at string
      simp only [List.cons_append, scanString, beq_iff_eq, atQuote, newline, noBackslash,
        if_false, Bool.false_eq_true, lengthen_snd, lengthen_fst, List.length_cons,
        Nat.add_le_add_iff_right, List.take_succ_cons] at inside string ⊢
      simp [List.getLast?_cons, ih (List.not_mem_of_not_mem_cons plain) inside string]

theorem suffix_of_commentLength_le (goesOn : more ≠ [])
    (inside : commentLength (text ++ more) ≤ text.length) :
    ['*', '/'] <:+ text.take (commentLength (text ++ more)) := by
  induction text with
  | nil =>
      rcases List.exists_cons_of_ne_nil goesOn with ⟨first, rest, rfl⟩
      rw [List.nil_append] at inside
      unfold commentLength at inside
      split at inside <;> simp_all
  | cons first rest ih =>
      by_cases ends : ∃ tail, first = '*' ∧ rest ++ more = '/' :: tail
      · rcases ends with ⟨tail, rfl, behind⟩
        match rest with
        | [] =>
            rw [List.nil_append] at behind
            simp [behind, commentLength] at inside
        | next :: rest =>
            rw [List.cons_append, List.cons.injEq] at behind
            rw [behind.1]
            exact List.suffix_refl _
      · have stays : ∀ tail, first = '*' → rest ++ more = '/' :: tail → False :=
          fun tail star slash => ends ⟨tail, star, slash⟩
        rw [List.cons_append, commentLength.eq_3 _ _ stays, List.length_cons] at inside
        rw [List.cons_append, commentLength.eq_3 _ _ stays, List.take_succ_cons]
        exact (ih (by omega)).trans (List.suffix_cons _ _)

theorem getLast?_of_brokenUrlLength_le (plain : '\\' ∉ text) (goesOn : more ≠ [])
    (inside : brokenUrlLength (text ++ more) ≤ text.length) :
    (text.take (brokenUrlLength (text ++ more))).getLast? = some ')' := by
  induction text with
  | nil =>
      rcases List.exists_cons_of_ne_nil goesOn with ⟨first, rest, rfl⟩
      rw [List.nil_append] at inside
      unfold brokenUrlLength at inside
      split at inside <;> simp_all
  | cons first rest ih =>
      have noBackslash := (List.ne_of_not_mem_cons plain).symm
      by_cases close : first = ')'
      · simp [close, brokenUrlLength]
      · have longer :
            brokenUrlLength (first :: rest ++ more) = brokenUrlLength (rest ++ more) + 1 := by
          simp [brokenUrlLength, noBackslash]
        rw [longer, List.length_cons] at inside
        rw [longer, List.take_succ_cons, List.getLast?_cons,
          ih (List.not_mem_of_not_mem_cons plain) (by omega)]
        rfl

theorem getLast?_of_scanUrlEnd_le (plain : '\\' ∉ text) (goesOn : more ≠ [])
    (inside : (scanUrlEnd (text ++ more)).2 ≤ text.length) :
    (text.take (scanUrlEnd (text ++ more)).2).getLast? = some ')' := by
  induction text with
  | nil =>
      rcases List.exists_cons_of_ne_nil goesOn with ⟨first, rest, rfl⟩
      rw [List.nil_append, scanUrlEnd] at inside
      split at inside
      · simp at inside
      · split at inside <;> simp at inside
  | cons first rest ih =>
      have plainRest := List.not_mem_of_not_mem_cons plain
      by_cases space : isSpace first = true
      · simp only [List.cons_append, scanUrlEnd, space, if_true, lengthen_snd, List.length_cons,
          Nat.add_le_add_iff_right, List.take_succ_cons] at inside ⊢
        rw [List.getLast?_cons, ih plainRest inside]
        rfl
      by_cases close : first = ')'
      · subst close
        simp [scanUrlEnd, space]
      · simp only [List.cons_append, scanUrlEnd, space, close, beq_iff_eq, if_false,
          Bool.false_eq_true, List.length_cons, Nat.add_le_add_iff_right, List.take_succ_cons]
          at inside ⊢
        rw [List.getLast?_cons, getLast?_of_brokenUrlLength_le plainRest goesOn inside]
        rfl

theorem getLast?_of_scanUrl_le (plain : '\\' ∉ text) (goesOn : more ≠ [])
    (inside : (scanUrl 0 (text ++ more)).2 ≤ text.length) :
    (text.take (scanUrl 0 (text ++ more)).2).getLast? = some ')' := by
  induction text with
  | nil =>
      rcases List.exists_cons_of_ne_nil goesOn with ⟨first, rest, rfl⟩
      rw [List.nil_append, scanUrl] at inside
      repeat' split at inside
      all_goals simp at inside
  | cons first rest ih =>
      have noBackslash := (List.ne_of_not_mem_cons plain).symm
      have plainRest := List.not_mem_of_not_mem_cons plain
      by_cases close : first = ')'
      · simp [scanUrl, close]
      by_cases space : isSpace first = true
      · simp only [List.cons_append, scanUrl, close, space, beq_iff_eq, if_false, if_true,
          lengthen_snd, List.length_cons, Nat.add_le_add_iff_right, List.take_succ_cons]
          at inside ⊢
        rw [List.getLast?_cons, getLast?_of_scanUrlEnd_le plainRest goesOn inside]
        rfl
      by_cases broken :
          (isUnprintable first || first == '"' || first == '\'' || first == '(') = true
      · simp only [List.cons_append, scanUrl, close, space, broken, beq_iff_eq, if_false, if_true,
          Bool.false_eq_true, List.length_cons, Nat.add_le_add_iff_right, List.take_succ_cons]
          at inside ⊢
        rw [List.getLast?_cons, getLast?_of_brokenUrlLength_le plainRest goesOn inside]
        rfl
      · simp only [List.cons_append, scanUrl, close, space, broken, noBackslash, beq_iff_eq,
          if_false, Bool.false_eq_true, lengthen_snd, List.length_cons,
          Nat.add_le_add_iff_right, List.take_succ_cons] at inside ⊢
        rw [List.getLast?_cons, ih plainRest inside]
        rfl

end Token

end MediaQuery
