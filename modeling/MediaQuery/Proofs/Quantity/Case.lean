import MediaQuery.Proofs.Lexeme.Case
import MediaQuery.Quantity.Reader

/-!
# Quantities in any letter case

A reader that looks at nothing but tokens goes through a text and through its copy in
small letters in step, and takes the same value from both. So units and exponents may
be written in either case, and with escapes.
-/

namespace MediaQuery

theorem LengthUnit.ofName?_lower (name : List Char) : ofName? (Text.lower name) = ofName? name := by
  simp [ofName?]

theorem ResolutionUnit.ofName?_lower (name : List Char) :
    ofName? (Text.lower name) = ofName? name := by
  simp [ofName?]

namespace Cursor

/-- A place with the lexemes ahead in small letters. -/
def lower (cursor : Cursor) : Cursor :=
  { cursor with rest := cursor.rest.map Lexeme.lower }

theorem pastBlock_lower (cursor : Cursor) :
    cursor.lower.pastBlock = cursor.pastBlock.map Lexeme.lower := by
  rcases cursor with ⟨size, _ | bracket, rest⟩
  · rfl
  · simp [pastBlock, lower, List.map_drop]

theorem settle_lower (cursor : Cursor) : cursor.lower.settle = cursor.settle.lower := by
  unfold settle
  rw [pastBlock_lower, Lexeme.skipBlank_map_lower]
  rfl

theorem next_lower (cursor : Cursor) :
    cursor.lower.next = (cursor.next.1.map Lexeme.lower, cursor.next.2.lower) := by
  have ahead : cursor.lower.settle.rest = cursor.settle.rest.map Lexeme.lower := by
    rw [settle_lower]
    rfl
  unfold next
  rw [ahead]
  rcases cursor.settle.rest with _ | ⟨lexeme, rest⟩
  · rw [settle_lower]
    rfl
  · simp [lower, Lexeme.lower]

theorem exhausted_lower (cursor : Cursor) : cursor.lower.exhausted = cursor.exhausted := by
  unfold exhausted
  rw [settle_lower]
  exact List.isEmpty_map

theorem lower_start_toLower (text : String) :
    (start text.toLower).lower = (start text).lower := by
  simp [start, lower, Text.toList_toLower, Lexeme.map_lower_ofText]

end Cursor

namespace Reader

/-- Whether a reader goes through lexemes and through their small copies in step. -/
def Caseless {Value : Type} (read : Reader Value) : Prop :=
  ∀ cursor : Cursor, read cursor.lower = ((read cursor).1, (read cursor).2.lower)

theorem whole_eq {Value : Type} (read : Reader Value) (text : String) :
    whole read text =
      (read (Cursor.start text)).1.bind fun value =>
        if (read (Cursor.start text)).2.exhausted then .ok value else .error .trailingInput := by
  unfold whole
  rcases read (Cursor.start text) with ⟨error | value, after⟩ <;> rfl

theorem Caseless.whole_toLower {Value : Type} {read : Reader Value} (caseless : Caseless read)
    (text : String) : whole read text.toLower = whole read text := by
  have small := caseless (Cursor.start text.toLower)
  rw [Cursor.lower_start_toLower, caseless, Prod.mk.injEq] at small
  rcases small with ⟨result, after⟩
  have exhausted := congrArg Cursor.exhausted after
  rw [Cursor.exhausted_lower, Cursor.exhausted_lower] at exhausted
  rw [whole_eq, whole_eq, ← result, ← exhausted]

theorem caseless_ofToken {Value : Type} {read : Lexeme → Except ReadError Value}
    (same : ∀ lexeme, read lexeme.lower = read lexeme) : Caseless (ofToken read) := by
  intro cursor
  unfold ofToken
  rw [Cursor.next_lower]
  rcases cursor.next with ⟨_ | lexeme, after⟩
  · rfl
  · simp [same]

theorem caseless_number : Caseless number := by
  apply caseless_ofToken
  rintro ⟨token, text⟩
  cases token <;> rfl

theorem caseless_integer : Caseless integer := by
  apply caseless_ofToken
  rintro ⟨token, text⟩
  cases token <;> rfl

theorem caseless_denominator : Caseless denominator := by
  intro cursor
  unfold denominator
  rw [Cursor.next_lower]
  rcases cursor.next with ⟨_ | ⟨token, text⟩, after⟩
  · rfl
  · have slash : token.lower = .delimiter '/' ↔ token = .delimiter '/' := by
      have noLetter : Char.isAlpha '/' = false := by decide
      cases token <;> simp [Token.lower, noLetter]
    by_cases found : token = .delimiter '/'
    · simp only [Option.map_some, Lexeme.lower, if_pos found, if_pos (slash.mpr found)]
      exact caseless_number after
    · simp only [Option.map_some, Lexeme.lower, if_neg found, if_neg (mt slash.mp found)]

theorem caseless_ratio : Caseless ratio := by
  intro cursor
  unfold ratio
  rw [caseless_number cursor]
  rcases number cursor with ⟨error | numerator, afterNumerator⟩
  · rfl
  · simp only [caseless_denominator afterNumerator]
    rcases denominator afterNumerator with ⟨error | denominator, after⟩ <;> rfl

/-- The unit is cut off by its length in bytes, which letter case does not change. -/
theorem dimensionValue_lower (text : List Char) (numeral : Numeral) (unit : List Char) :
    dimensionValue (Text.lower text) numeral (Text.lower unit) =
      dimensionValue text numeral unit := by
  have cut : ∀ bytes, (Text.takeBytes bytes (Text.lower text)).bind Numeral.ofText? =
      (Text.takeBytes bytes text).bind Numeral.ofText? := by
    intro bytes
    rw [Text.takeBytes_lower, Option.bind_map]
    congr 1
    funext digits
    exact Numeral.ofText?_lower digits
  simp only [dimensionValue, Text.byteLength_lower]
  by_cases longer : Text.byteLength unit ≤ Text.byteLength text
  · simp only [if_pos longer, cut]
  · simp only [if_neg longer]

theorem caseless_quantity {Kind : Type} (implied : Kind) {unitOf : List Char → Option Kind}
    (same : ∀ name, unitOf (Text.lower name) = unitOf name) :
    Caseless (quantity implied unitOf) := by
  apply caseless_ofToken
  rintro ⟨token, text⟩
  cases token with
  | dimension numeral unit => simp [Lexeme.lower, Token.lower, same, dimensionValue_lower]
  | _ => rfl

theorem caseless_length : Caseless length := by
  intro cursor
  unfold length
  rw [caseless_quantity .pixels LengthUnit.ofName?_lower]

theorem caseless_resolution : Caseless resolution := by
  intro cursor
  unfold resolution
  rw [caseless_quantity .perInch ResolutionUnit.ofName?_lower]

end Reader

theorem pixelsOfText_toLower (text : String) :
    pixelsOfText text.toLower = pixelsOfText text := by
  rw [pixelsOfText, Reader.caseless_length.whole_toLower]
  rfl

theorem dotsPerInchOfText_toLower (text : String) :
    dotsPerInchOfText text.toLower = dotsPerInchOfText text := by
  rw [dotsPerInchOfText, Reader.caseless_resolution.whole_toLower]
  rfl

theorem decimalOfText_toLower (text : String) :
    decimalOfText text.toLower = decimalOfText text := by
  rw [decimalOfText, Reader.caseless_ratio.whole_toLower]
  rfl

theorem integerOfText_toLower (text : String) :
    integerOfText text.toLower = integerOfText text :=
  Reader.caseless_integer.whole_toLower text

end MediaQuery
