import MediaQuery.Proofs.Lexeme.Case
import MediaQuery.Proofs.Number.Grammar

/-!
# Decimal texts

Values in binary64 precision have a written form of their own. It is wider than that of numerals:
a point may stand behind the last digit, and words stand for the values that no digits write. On a
text that starts with a numeral the two forms agree, but for a point behind it: the text reads as a
value exactly if the numeral is all of it.
-/

namespace MediaQuery

namespace Numeral

/-- The value that a word stands for, in any letter case. -/
def wordValue? (word : List Char) : Option Float :=
  match String.ofList (Text.lower word) with
  | "inf" => some (1 / 0)
  | "infinity" => some (1 / 0)
  | "nan" => some (0 / 0)
  | _ => none

/-- The number of characters that a point takes with the digits behind it, if there are any. -/
def pointLength : List Char → Nat
  | '.' :: rest => 1 + (rest.takeWhile Char.isDigit).length
  | _ => 0

/-- The numeral that a whole text is, where a point needs digits on one of its sides only. -/
def ofDecimal? (text : List Char) : Option Numeral :=
  let whole := wholeDigits text
  let fraction := fractionDigits (afterWhole text)
  let rest := (afterWhole text).drop (pointLength (afterWhole text))
  if (whole ≠ [] ∨ fraction ≠ []) ∧ (scanExponent rest).2 = rest.length then
    some {
      negative := startsNegative text
      whole := whole.map digitValue
      fraction := fraction.map digitValue
      exponent := (scanExponent rest).1 }
  else
    none

/-- The value that a whole text writes: a sign or none, and behind it a word or a numeral. -/
def floatOfText? (text : List Char) : Option Float :=
  match wordValue? (text.drop (signLength text)) with
  | some size => some (if startsNegative text then -size else size)
  | none => (ofDecimal? text).map toFloat

variable {text : List Char} {numeral : Numeral}

theorem IsDigits.plain {digits : List Char} (isDigits : IsDigits digits) : '\\' ∉ digits := by
  intro member
  exact absurd (isDigits.isDigit _ member) (by decide)

theorem IsSign.plain {negative : Bool} {sign : List Char} (isSign : IsSign negative sign) :
    '\\' ∉ sign := by
  cases isSign <;> decide

/-- A numeral is written without a backslash. -/
theorem Spells.plain (spells : Spells text numeral) : '\\' ∉ text := by
  rcases spells with ⟨isSign, isUnsigned, isExponent⟩
  simp only [List.mem_append, not_or]
  refine ⟨isSign.plain, ?_, ?_⟩
  · cases isUnsigned with
    | whole whole => exact whole.plain
    | both whole fraction => simp [whole.plain, fraction.plain]
    | fraction fraction => simp [fraction.plain]
  · cases isExponent with
    | absent => simp
    | present marked isSign isDigits =>
        rcases marked with rfl | rfl <;> simp [isSign.plain, isDigits.plain]

/-- No word starts like a number. -/
theorem wordValue?_eq_none (starts : startsUnsigned text = true) : wordValue? text = none := by
  have noWord : ∀ word : String, startsUnsigned word.toList = false →
      String.ofList (Text.lower text) ≠ word := by
    rintro _ isWord rfl
    rw [String.toList_ofList, startsUnsigned_lower, starts] at isWord
    cases isWord
  unfold wordValue?
  split
  · rename_i same
    exact absurd same (noWord "inf" (by decide))
  · rename_i same
    exact absurd same (noWord "infinity" (by decide))
  · rename_i same
    exact absurd same (noWord "nan" (by decide))
  · rfl

theorem pointLength_eq (digits : text.head? = some '.' → fractionDigits text ≠ []) :
    pointLength text = fractionLength text := by
  unfold pointLength
  split
  · rename_i rest
    have present : fractionDigits ('.' :: rest) ≠ [] := digits rfl
    rw [fractionLength, if_neg (by simpa using present)]
    rfl
  · rename_i noPoint
    rw [fractionLength, fractionDigits.eq_2 text noPoint]
    rfl

theorem scanExponent_point (rest : List Char) : scanExponent ('.' :: rest) = (none, 0) := by
  rw [scanExponent_cons]
  rfl

/-- A point with no digits behind it is not taken, and no exponent can follow it. -/
theorem head?_drop_scan (point : (afterWhole text).head? = some '.')
    (noDigits : fractionDigits (afterWhole text) = []) :
    (text.drop (scan text).2).head? = some '.' := by
  have noFraction : fractionLength (afterWhole text) = 0 := by
    rw [fractionLength, noDigits]
    rfl
  rcases List.head?_eq_some_iff.mp point with ⟨rest, ahead⟩
  have noExponent : (scanExponent (afterFraction text)).2 = 0 := by
    rw [afterFraction, noFraction, List.drop_zero, ahead, scanExponent_point]
  simp only [scan_eq, noFraction, noExponent, Nat.add_zero]
  exact point

theorem ofDecimal?_eq (starts : starts text = true)
    (noPoint : (text.drop (scan text).2).head? ≠ some '.') :
    ofDecimal? text = if (scan text).2 = text.length then some (scan text).1 else none := by
  have digits : (afterWhole text).head? = some '.' → fractionDigits (afterWhole text) ≠ [] :=
    fun point noDigits => noPoint (head?_drop_scan point noDigits)
  have present := (starts_iff text).mp starts
  have behind : (afterWhole text).drop (pointLength (afterWhole text)) = afterFraction text := by
    rw [pointLength_eq digits]
    rfl
  have lengthWhole : (afterWhole text).length =
      text.length - (signLength text + (wholeDigits text).length) := List.length_drop
  have lengthFraction : (afterFraction text).length =
      (afterWhole text).length - fractionLength (afterWhole text) := List.length_drop
  have within := signLength_add_length_wholeDigits_le text
  have fraction := fractionLength_le (afterWhole text)
  have ended : (wholeDigits text ≠ [] ∨ fractionDigits (afterWhole text) ≠ []) ∧
      (scanExponent (afterFraction text)).2 = (afterFraction text).length ↔
      (scan text).2 = text.length := by
    rw [and_iff_right present, scan_eq]
    dsimp only
    omega
  simp only [ofDecimal?, behind]
  exact if_congr ended rfl rfl

/-- A text that starts with a numeral writes a value exactly if the numeral is all of it. -/
theorem floatOfText?_eq (starts : starts text = true)
    (noPoint : (text.drop (scan text).2).head? ≠ some '.') :
    floatOfText? text = if (scan text).2 = text.length then some (scan text).1.toFloat else none := by
  have noWord : wordValue? (text.drop (signLength text)) = none := wordValue?_eq_none starts
  simp only [floatOfText?, noWord, ofDecimal?_eq starts noPoint]
  split <;> rfl

/-- What is written as a numeral writes the nearest value of it. -/
theorem floatOfText?_of_spells (spells : Spells text numeral) :
    floatOfText? text = some numeral.toFloat := by
  rcases spells.scan_append (ends_of_stops Text.stops_nil) with ⟨starts, scanned⟩
  rw [List.append_nil] at starts scanned
  rw [floatOfText?_eq starts (by simp [scanned]), scanned, if_pos rfl]

/-- What is no value is no numeral. -/
theorem ofText?_eq_none (writesNone : floatOfText? text = none) : ofText? text = none := by
  simp only [ofText?]
  split
  · rename_i isNumeral
    simp only [Bool.and_eq_true, beq_iff_eq] at isNumeral
    have spells := spells_scan text isNumeral.1
    rw [isNumeral.2, List.take_length] at spells
    rw [floatOfText?_of_spells spells] at writesNone
    cases writesNone
  · rfl

/-- Where a numeral ends in a text, no longer part of the text writes a value. -/
theorem floatOfText?_eq_none_of_longer {count : Nat} (starts : starts text = true)
    (noPoint : (text.drop (scan text).2).head? ≠ some '.') (longer : (scan text).2 < count)
    (within : count ≤ text.length) : floatOfText? (text.take count) = none := by
  have positive := scan_length_pos starts
  have whole := List.take_append_drop count text
  have length : (text.take count).length = count := List.length_take_of_le within
  have nonempty : text.take count ≠ [] := List.ne_nil_of_length_pos (by omega)
  have inside : (scan (text.take count ++ text.drop count)).2 ≤ (text.take count).length := by
    rw [whole, length]
    exact longer.le
  rcases scan_of_append nonempty inside with ⟨sameScan, sameStart⟩
  rw [whole] at sameScan sameStart
  have samePoint : ((text.take count).drop (scan text).2).head? =
      (text.drop (scan text).2).head? := by
    rw [List.head?_drop, List.head?_drop, List.getElem?_take_of_lt longer]
  rw [floatOfText?_eq (sameStart.trans starts) (by rwa [sameScan, samePoint]), sameScan, length,
    if_neg longer.ne]

end Numeral

end MediaQuery
