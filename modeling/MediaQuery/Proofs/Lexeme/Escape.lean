import MediaQuery.Proofs.Lexeme.Numeric
import MediaQuery.Proofs.Text.Bytes

/-!
# Names with escapes

A name may spell each of its characters with an escape. An escape takes at least two characters for
the one that it stands for, so a name of characters that take one byte each is shorter than its
spelling exactly if it is spelled with an escape, and then every character of the spelling takes one
byte as well. The unit of a dimension is such a name, and its numeral ends where the name starts.
-/

namespace MediaQuery

open Text (IsNarrow)

namespace Name

open Character

/-- The end of the digits of an escape: one space character, two for a newline of two, or none. -/
inductive IsEscapeEnd : List Char → Prop
  | absent : IsEscapeEnd []
  | space {character : Char} (space : isSpace character = true) : IsEscapeEnd [character]
  | newline : IsEscapeEnd ['\r', '\n']

/-- What stands behind the backslash of an escape, and the character that it stands for. -/
inductive IsEscape : List Char → Char → Prop
  | code {digits ending : List Char} (nonempty : digits ≠ []) (short : digits.length ≤ 6)
      (isHex : ∀ digit ∈ digits, isHexDigit digit = true) (isEnd : IsEscapeEnd ending) :
      IsEscape (digits ++ ending) (scalar (hexNumber digits))
  | character {character : Char} (noHex : isHexDigit character = false) :
      IsEscape [character] (shown character)
  | missing : IsEscape [] replacement

/-- How a name is spelled: by name characters and by escapes, and what it shows for them. -/
inductive Spells : List Char → List Char → Prop
  | nil : Spells [] []
  | part {first : Char} {source name : List Char} (isPart : isNamePart first = true)
      (rest : Spells source name) : Spells (first :: source) (shown first :: name)
  | escape {piece source name : List Char} {character : Char} (isEscape : IsEscape piece character)
      (rest : Spells source name) : Spells ('\\' :: (piece ++ source)) (character :: name)

section Soundness

theorem newlineLength?_cases (text : List Char) :
    newlineLength? text = none ∨
      ∃ length, newlineLength? text = some length ∧ length ≤ text.length ∧
        IsEscapeEnd (text.take length) := by
  fun_cases newlineLength? text with
  | case1 rest => exact Or.inr ⟨2, rfl, by simp, .newline⟩
  | case2 first rest _ newline =>
      exact Or.inr ⟨1, rfl, by simp, .space (by simp [isSpace, newline])⟩
  | case3 => exact Or.inl rfl
  | case4 => exact Or.inl rfl

theorem isEscapeEnd_take (text : List Char) :
    escapeEnd text ≤ text.length ∧ IsEscapeEnd (text.take (escapeEnd text)) := by
  unfold escapeEnd
  rcases newlineLength?_cases text with noNewline | ⟨length, newline, within, isEnd⟩
  · rw [noNewline]
    cases text with
    | nil => exact ⟨Nat.le_refl _, .absent⟩
    | cons first rest =>
        cases space : isSpace first with
        | true => simpa [space] using IsEscapeEnd.space space
        | false => simpa [space] using IsEscapeEnd.absent
  · rw [newline]
    exact ⟨within, isEnd⟩

theorem isEscape_take (text : List Char) :
    (escape text).2 ≤ text.length ∧ IsEscape (text.take (escape text).2) (escape text).1 := by
  fun_cases escape text with
  | case1 => exact ⟨Nat.le_refl _, .missing⟩
  | case2 first rest isHex digits =>
      have front : digits <+: first :: rest := by
        refine List.cons_prefix_cons.mpr ⟨rfl, ?_⟩
        exact (List.takeWhile_prefix isHexDigit).trans (List.take_prefix 5 rest)
      have short : digits.length ≤ 6 := by
        have within := (List.takeWhile_prefix isHexDigit (l := rest.take 5)).length_le
        have five := List.length_take_le 5 rest
        simp only [digits, List.length_cons]
        omega
      have allHex : ∀ digit ∈ digits, isHexDigit digit = true := by
        intro digit member
        rcases List.mem_cons.mp member with rfl | later
        · exact isHex
        · exact List.mem_takeWhile_imp later
      have within := front.length_le
      rcases isEscapeEnd_take ((first :: rest).drop digits.length) with ⟨withinRest, isEnd⟩
      rw [List.length_drop] at withinRest
      refine ⟨by omega, ?_⟩
      rw [List.take_add, ← List.prefix_iff_eq_take.mp front]
      exact .code (List.cons_ne_nil _ _) short allHex isEnd
  | case3 first rest noHex => exact ⟨by simp, .character (by simpa using noHex)⟩

theorem spells_scanFrom {skip : Nat} {text : List Char} (within : skip ≤ text.length) :
    ∃ length, (scanFrom skip text).2 = skip + length ∧
      Spells ((text.drop skip).take length) (scanFrom skip text).1 := by
  induction text generalizing skip with
  | nil =>
      have none : skip = 0 := by simpa using within
      subst none
      exact ⟨0, rfl, .nil⟩
  | cons first rest ih =>
      cases skip with
      | succ skip =>
          rcases ih (Nat.le_of_succ_le_succ within) with ⟨length, taken, spells⟩
          refine ⟨length, ?_, spells⟩
          rw [scanFrom_succ, taken, Nat.add_right_comm]
      | zero =>
          by_cases isPart : isNamePart first = true
          · rcases ih (Nat.zero_le _) with ⟨length, taken, spells⟩
            refine ⟨length + 1, ?_, ?_⟩
            · rw [scanFrom_part isPart, taken, Nat.zero_add, Nat.zero_add]
            · rw [scanFrom_part isPart]
              exact .part isPart spells
          · by_cases escaped : (first == '\\' && continuesEscape rest) = true
            · simp only [Bool.and_eq_true, beq_iff_eq] at escaped
              rcases escaped with ⟨rfl, continues⟩
              rcases isEscape_take rest with ⟨inside, isEscape⟩
              rcases ih inside with ⟨length, taken, spells⟩
              refine ⟨(escape rest).2 + length + 1, ?_, ?_⟩
              · rw [scanFrom_escape continues, taken, Nat.zero_add]
              · rw [scanFrom_escape continues, List.drop_zero, List.take_succ_cons, List.take_add]
                exact .escape isEscape spells
            · rw [scanFrom_stop (by simpa using isPart) (by simpa using escaped)]
              exact ⟨0, rfl, .nil⟩

/-- The name at the front of a text is spelled by what is taken of the text. -/
theorem spells_scan (text : List Char) : Spells (text.take (scan text).2) (scan text).1 := by
  rcases spells_scanFrom (Nat.zero_le text.length) with ⟨length, taken, spells⟩
  rw [Nat.zero_add] at taken
  rw [scan, taken]
  exact spells

end Soundness

section Size

variable {source name : List Char}

theorem isNarrow_of_isHexDigit {digit : Char} (isHex : isHexDigit digit = true) :
    digit.utf8Size = 1 := by
  have small : digit.toNat ≤ 0x7f := by
    simp only [isHexDigit, Char.isDigit, Bool.or_eq_true, Bool.and_eq_true, decide_eq_true_eq]
      at isHex
    rcases isHex with (⟨_, last⟩ | ⟨_, last⟩) | ⟨_, last⟩
    · exact Nat.le_trans last (by decide)
    · exact Nat.le_trans last (by decide)
    · exact Nat.le_trans last (by decide)
  exact Char.utf8Size_eq_one_iff.mpr small

theorem IsEscapeEnd.isNarrow {ending : List Char} (isEnd : IsEscapeEnd ending) :
    IsNarrow ending := by
  cases isEnd with
  | absent => decide
  | space space => rcases isSpace_iff.mp space with rfl | rfl | rfl | rfl | rfl <;> decide
  | newline => decide

theorem utf8Size_of_shown {character : Char} (narrow : (shown character).utf8Size = 1) :
    character.utf8Size = 1 := by
  by_cases null : character = '\x00'
  · subst null
    rfl
  · have same : shown character = character := by simp [shown, null]
    rwa [same] at narrow

/-- An escape that stands for a character of one byte is not missing, and has such characters. -/
theorem IsEscape.isNarrow {piece : List Char} {character : Char}
    (isEscape : IsEscape piece character) (narrow : character.utf8Size = 1) :
    piece ≠ [] ∧ IsNarrow piece := by
  cases isEscape with
  | code nonempty _ isHex isEnd =>
      refine ⟨List.append_ne_nil_of_left_ne_nil nonempty _, ?_⟩
      exact IsNarrow.append (fun digit member => isNarrow_of_isHexDigit (isHex digit member))
        isEnd.isNarrow
  | character _ => exact ⟨by simp, by simpa [IsNarrow] using utf8Size_of_shown narrow⟩
  | missing => exact absurd narrow (by decide)

theorem Spells.isNarrow (spells : Spells source name) (narrow : IsNarrow name) :
    IsNarrow source := by
  induction spells with
  | nil => exact narrow
  | part _ _ ih =>
      rcases List.forall_mem_cons.mp narrow with ⟨first, rest⟩
      exact List.forall_mem_cons.mpr ⟨utf8Size_of_shown first, ih rest⟩
  | escape isEscape _ ih =>
      rcases List.forall_mem_cons.mp narrow with ⟨first, rest⟩
      exact List.forall_mem_cons.mpr ⟨rfl, (isEscape.isNarrow first).2.append (ih rest)⟩

theorem Spells.length_le (spells : Spells source name) : name.length ≤ source.length := by
  induction spells with
  | nil => exact Nat.le_refl _
  | part _ _ ih => exact Nat.succ_le_succ ih
  | escape _ _ ih =>
      simp only [List.length_cons, List.length_append]
      omega

theorem Spells.length_lt (spells : Spells source name) (narrow : IsNarrow name)
    (escaped : '\\' ∈ source) : name.length < source.length := by
  induction spells with
  | nil => simp at escaped
  | part isPart _ ih =>
      rcases List.mem_cons.mp escaped with rfl | later
      · exact absurd isPart (by decide)
      · exact Nat.succ_lt_succ (ih (List.forall_mem_cons.mp narrow).2 later)
  | escape isEscape rest _ =>
      have piece := List.length_pos_of_ne_nil
        (isEscape.isNarrow (List.forall_mem_cons.mp narrow).1).1
      have tail := rest.length_le
      simp only [List.length_cons, List.length_append]
      omega

/-- A name that is spelled without an escape is its own spelling. -/
theorem Spells.eq_of_plain (spells : Spells source name) (narrow : IsNarrow name)
    (plain : '\\' ∉ source) : name = source := by
  induction spells with
  | nil => rfl
  | @part first _ _ _ _ ih =>
      rcases List.forall_mem_cons.mp narrow with ⟨firstNarrow, restNarrow⟩
      have visible : first ≠ '\x00' := by
        rintro rfl
        exact absurd firstNarrow (by decide)
      have same : shown first = first := by simp [shown, visible]
      rw [same, ih restNarrow (List.not_mem_of_not_mem_cons plain)]
  | escape _ _ _ => simp at plain

end Size

theorem head?_ne_point {text : List Char} (starts : starts text = true) :
    text.head? ≠ some '.' := by
  intro point
  rcases List.head?_eq_some_iff.mp point with ⟨rest, rfl⟩
  rw [starts_cons (by decide) (by decide)] at starts
  exact absurd starts (by decide)

end Name

namespace Token

variable {text unit : List Char} {numeral : Numeral}

/--
Where a dimension stands at the front of a text: its numeral, the spelling of its unit, and the text
behind them. The numeral is as long as one can be there.
-/
structure DimensionParts (text : List Char) (numeral : Numeral) (unit : List Char)
    (number suffix rest : List Char) : Prop where
  parts : text = number ++ (suffix ++ rest)
  starts : Numeral.starts text = true
  scanned : Numeral.scan text = (numeral, number.length)
  spells : numeral.Spells number
  startsUnit : Name.starts (suffix ++ rest) = true
  spellsUnit : Name.Spells suffix unit

theorem exists_dimensionParts (nonempty : text ≠ [])
    (dimension : (scan text).1 = .dimension numeral unit) :
    ∃ number suffix rest, DimensionParts text numeral unit number suffix rest ∧
      text.take (scan text).2 = number ++ suffix := by
  rcases scan_eq_scanNumeric nonempty (Or.inr ⟨numeral, unit, dimension⟩) with ⟨starts, scanned⟩
  rw [scanned, scanNumeric_eq] at dimension ⊢
  split at dimension
  · cases dimension
  rename_i noPercent
  split at dimension
  · rename_i startsUnit
    rcases Token.dimension.inj dimension with ⟨rfl, rfl⟩
    have whole := List.take_append_drop (Numeral.scan text).2 text
    have behind := List.take_append_drop (Name.scan (text.drop (Numeral.scan text).2)).2
      (text.drop (Numeral.scan text).2)
    have length : (text.take (Numeral.scan text).2).length = (Numeral.scan text).2 :=
      List.length_take_of_le (Numeral.scan_length_le text)
    refine ⟨text.take (Numeral.scan text).2,
      (text.drop (Numeral.scan text).2).take (Name.scan (text.drop (Numeral.scan text).2)).2,
      (text.drop (Numeral.scan text).2).drop (Name.scan (text.drop (Numeral.scan text).2)).2,
      ⟨?_, starts, ?_, ?_, ?_, ?_⟩, ?_⟩
    · rw [behind, whole]
    · rw [length]
    · exact Numeral.spells_scan text starts
    · rw [behind]
      exact startsUnit
    · exact Name.spells_scan _
    · rw [if_neg noPercent, if_pos startsUnit, List.take_add]
  · cases dimension

end Token

end MediaQuery
