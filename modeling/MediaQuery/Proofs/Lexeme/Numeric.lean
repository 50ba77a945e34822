import MediaQuery.Proofs.Number.Grammar

/-!
# Numbers and dimensions

A number is a numeral, and a dimension is a numeral and a unit that touches it. Both are spelled
so, and both are read where they are spelled so, if the unit cannot be taken for an exponent.
-/

namespace MediaQuery

open Text (Stops)

/-- The name of a unit: a word that can be shown and that no exponent starts. -/
structure IsUnitName (name : List Char) : Prop where
  isWord : Name.IsWord name
  visible : Character.replacement ∉ name
  noExponent : Numeral.scanExponent name = (none, 0)

instance (name : List Char) : Decidable (IsUnitName name) :=
  decidable_of_iff (Name.IsWord name ∧ Character.replacement ∉ name ∧
    Numeral.scanExponent name = (none, 0))
    ⟨fun ⟨isWord, visible, noExponent⟩ => ⟨isWord, visible, noExponent⟩,
      fun isUnit => ⟨isUnit.isWord, isUnit.visible, isUnit.noExponent⟩⟩

namespace IsUnitName

variable {name : List Char}

theorem of_lower (isUnit : IsUnitName (Text.lower name)) : IsUnitName name where
  isWord := Name.isWord_of_lower isUnit.isWord
  visible := by
    rw [← Text.mem_lower_iff (by decide)]
    exact isUnit.visible
  noExponent := by
    rw [← Numeral.scanExponent_lower]
    exact isUnit.noExponent

theorem head?_ne (isUnit : IsUnitName name) {mark : Char}
    (noPart : Character.isNamePart mark = false) (after : List Char) :
    (name ++ after).head? ≠ some mark := by
  rcases List.exists_cons_of_ne_nil isUnit.isWord.ne_nil with ⟨first, rest, rfl⟩
  intro front
  have same : first = mark := by simpa using front
  exact isUnit.isWord.not_mem noPart (by simp [same])

theorem ends (isUnit : IsUnitName name) {after : List Char} (stops : Stops after) :
    Numeral.Ends (name ++ after) where
  noDigit := by
    intro first front
    rcases Name.starts_cases isUnit.isWord.plain isUnit.isWord.starts with
      ⟨letter, rest, rfl, start⟩ | ⟨next, rest, rfl, _⟩
    · have same : letter = first := by simpa using front
      exact same ▸ Character.isDigit_of_isNameStart start
    · have same : '-' = first := by simpa using front
      exact same ▸ by decide
  noPoint := isUnit.head?_ne (by decide) after
  noExponent := by
    rw [Numeral.scanExponent_append stops]
    exact isUnit.noExponent

end IsUnitName

namespace Numeral

theorem Spells.ne_nil {text : List Char} {numeral : Numeral} (spells : Spells text numeral) :
    text ≠ [] := by
  rintro rfl
  have starts := (spells.scan_append (ends_of_stops Text.stops_nil)).1
  exact absurd starts (by decide)

/-- A numeral starts with a sign, a point or a digit. -/
theorem exists_cons_of_starts {text : List Char} (starts : starts text = true) :
    ∃ first rest, text = first :: rest ∧
      (first = '+' ∨ first = '-' ∨ first = '.' ∨ first.isDigit = true) := by
  cases text with
  | nil => exact absurd starts (by decide)
  | cons first rest =>
      refine ⟨first, rest, rfl, ?_⟩
      by_cases sign : first = '+' ∨ first = '-'
      · rcases sign with plus | minus
        · exact Or.inl plus
        · exact Or.inr (Or.inl minus)
      · rw [Numeral.starts, signLength_cons, if_neg sign, List.drop_zero,
          startsUnsigned_cons] at starts
        split at starts
        · rename_i point
          exact Or.inr (Or.inr (Or.inl point))
        · exact Or.inr (Or.inr (Or.inr starts))

end Numeral

namespace Token

theorem scan_eq_scanNumeric_of_starts {text : List Char} (starts : Numeral.starts text = true) :
    scan text = scanNumeric text := by
  rcases Numeral.exists_cons_of_starts starts with ⟨first, rest, rfl, kind⟩
  have noSpace : Character.isSpace first = false := by
    rcases kind with rfl | rfl | rfl | digit
    · decide
    · decide
    · decide
    · by_contra space
      rcases Character.isSpace_iff.mp (by simpa using space) with rfl | rfl | rfl | rfl | rfl <;>
        exact absurd digit (by decide)
  have noQuote : (first == '"' || first == '\'') = false := by
    simp only [Bool.or_eq_false_iff, beq_eq_false_iff_ne]
    constructor <;>
      · rintro rfl
        revert kind
        decide
  rw [scan_cons, noSpace, noQuote, starts]
  rfl

/-- Numbers and dimensions are scanned where a numeral starts. -/
theorem scan_eq_scanNumeric {text : List Char} (nonempty : text ≠ [])
    (numeric : (∃ numeral, (scan text).1 = .number numeral) ∨
      ∃ numeral unit, (scan text).1 = .dimension numeral unit) :
    Numeral.starts text = true ∧ scan text = scanNumeric text := by
  refine scan_cases (motive := fun text scanned =>
    ((∃ numeral, scanned.1 = .number numeral) ∨
      ∃ numeral unit, scanned.1 = .dimension numeral unit) →
      Numeral.starts text = true ∧ scanned = scanNumeric text) ?_ ?_ ?_ ?_ ?_ ?_ nonempty numeric
  · intro first rest _ numeric
    simp at numeric
  · intro quote rest _ numeric
    rcases scanString_token quote 0 rest with kind | kind <;> simp [kind] at numeric
  · intro text starts _
    exact ⟨starts, rfl⟩
  · intro rest numeric
    simp at numeric
  · intro text _ numeric
    rcases scanName_token text with kind | kind | kind | kind <;> simp [kind] at numeric
  · intro first rest _
    fun_cases scanMark (first :: rest) <;> simp

variable {text : List Char} {numeral : Numeral}

theorem spells_of_scan_number (nonempty : text ≠ []) (number : (scan text).1 = .number numeral) :
    Numeral.Spells (text.take (scan text).2) numeral := by
  rcases scan_eq_scanNumeric nonempty (Or.inl ⟨numeral, number⟩) with ⟨starts, scanned⟩
  rw [scanned, scanNumeric_eq] at number ⊢
  split at number
  · cases number
  · rename_i noPercent
    split at number
    · cases number
    · rename_i noUnit
      rw [if_neg noPercent, if_neg noUnit, ← Token.number.inj number]
      exact Numeral.spells_scan text starts

/-- A dimension is spelled as its numeral and as its unit, if every character is shown. -/
theorem spells_of_scan_dimension {unit : List Char} (nonempty : text ≠ []) (plain : '\\' ∉ text)
    (visible : Character.replacement ∉ unit)
    (dimension : (scan text).1 = .dimension numeral unit) :
    ∃ number, text.take (scan text).2 = number ++ unit ∧ Numeral.Spells number numeral := by
  rcases scan_eq_scanNumeric nonempty (Or.inr ⟨numeral, unit, dimension⟩) with ⟨starts, scanned⟩
  rw [scanned, scanNumeric_eq] at dimension ⊢
  split at dimension
  · cases dimension
  · rename_i noPercent
    split at dimension
    · rename_i startsUnit
      rcases Token.dimension.inj dimension with ⟨sameNumeral, sameUnit⟩
      have plainRest : '\\' ∉ text.drop (Numeral.scan text).2 :=
        fun member => plain (List.mem_of_mem_drop member)
      rw [Name.scan_eq_of_plain plainRest] at sameUnit
      refine ⟨text.take (Numeral.scan text).2, ?_, ?_⟩
      · rw [if_neg noPercent, if_pos startsUnit, List.take_add,
          Name.scan_eq_of_plain plainRest,
          ← List.prefix_iff_eq_take.mp (List.takeWhile_prefix Character.isNamePart)]
        congr 1
        rw [← sameUnit]
        calc (text.drop (Numeral.scan text).2).takeWhile Character.isNamePart
            = ((text.drop (Numeral.scan text).2).takeWhile Character.isNamePart).map id :=
              (List.map_id _).symm
          _ = _ := List.map_congr_left fun character member => by
              by_contra hidden
              have null : character = '\x00' := by
                by_contra other
                exact hidden (by simp [Character.shown, other])
              apply visible
              rw [← sameUnit, List.mem_map]
              exact ⟨character, member, by simp [Character.shown, null]⟩
      · rw [← sameNumeral]
        exact Numeral.spells_scan text starts
    · cases dimension

end Token

namespace Lexeme.Reads

variable {text after : List Char} {numeral : Numeral}

/-- A numeral reads as a number in front of every text that does not go on with it. -/
theorem number (spells : Numeral.Spells text numeral) (stops : Stops after) :
    Reads text [⟨.number numeral, text⟩] after := by
  rcases spells.scan_append (Numeral.ends_of_stops stops) with ⟨starts, scanned⟩
  apply of_scan spells.ne_nil
  have noPercent : after.head? ≠ some '%' := fun front =>
    (Character.ne_of_stops (stops '%' front) (by decide) : '%' ≠ '%') rfl
  have noUnit : Name.starts after = false := @Name.starts_append [] after (by simp) stops
  rw [Token.scan_eq_scanNumeric_of_starts starts, Token.scanNumeric_eq, scanned, List.drop_left,
    if_neg noPercent, noUnit]
  rfl

/-- A numeral and the name of a unit read as a dimension. -/
theorem dimension {unit : List Char} (spells : Numeral.Spells text numeral)
    (isUnit : IsUnitName unit) (stops : Stops after) :
    Reads (text ++ unit) [⟨.dimension numeral unit, text ++ unit⟩] after := by
  rcases spells.scan_append (isUnit.ends stops) with ⟨starts, scanned⟩
  apply of_scan (by simp [spells.ne_nil])
  have startsUnit := Name.starts_append isUnit.isWord.plain stops
  rw [isUnit.isWord.starts] at startsUnit
  rw [List.append_assoc, Token.scan_eq_scanNumeric_of_starts starts, Token.scanNumeric_eq, scanned,
    List.drop_left, if_neg (isUnit.head?_ne (by decide) after), startsUnit,
    Name.scan_append isUnit.isWord.plain stops, isUnit.isWord.scan_eq]
  simp

theorem slash (noComment : after.head? ≠ some '*') :
    Reads ['/'] [⟨.delimiter '/', ['/']⟩] after := by
  apply of_scan (by simp)
  match after with
  | [] => rfl
  | first :: rest =>
      have noStar : first ≠ '*' := by simpa using noComment
      have other : Token.scanMark ('/' :: first :: rest) = (.delimiter '/', 1) := by
        simp [Token.scanMark, noStar]
      exact other

end Lexeme.Reads

end MediaQuery
