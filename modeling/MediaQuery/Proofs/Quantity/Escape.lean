import MediaQuery.Proofs.Cursor.Place
import MediaQuery.Proofs.Lexeme.Escape
import MediaQuery.Proofs.Number.Decimal
import MediaQuery.Proofs.Quantity.Grammar

/-!
# Where the value of a quantity is read from

The value of a number is read from its own text. That of a dimension is read from its text less as
many bytes as its unit has, which is the text of its numeral unless the unit is spelled with an
escape. What is left then goes on behind the numeral and writes no value, so that the sum of the
digits counts. The main statement says so for every place of a text, and the readers that go to the
text are shown to be those of this library.
-/

namespace MediaQuery

open Text (IsNarrow)

theorem Text.isNarrow_of_lower {text : List Char} (narrow : IsNarrow (Text.lower text)) :
    IsNarrow text := by
  intro character member
  rw [← Character.utf8Size_toLower]
  exact narrow _ (List.mem_map_of_mem member)

theorem LengthUnit.isNarrow_of_ofName? {name : List Char} {unit : LengthUnit}
    (found : ofName? name = some unit) : IsNarrow name := by
  apply Text.isNarrow_of_lower
  rw [ofName?_eq_some_iff.mp found]
  cases unit <;> decide

theorem ResolutionUnit.isNarrow_of_ofName? {name : List Char} {unit : ResolutionUnit}
    (found : ofName? name = some unit) : IsNarrow name := by
  apply Text.isNarrow_of_lower
  rw [ofName?_eq_some_iff.mp found]
  cases unit <;> decide

namespace Reader

/-- The text of a dimension less as many bytes as its unit has, if no character is cut through. -/
def leftOf? (source unit : List Char) : Option (List Char) :=
  if Text.byteLength unit ≤ Text.byteLength source then
    Text.takeBytes (Text.byteLength source - Text.byteLength unit) source
  else
    none

/-- The value that a text writes, or the sum of the digits of a numeral if it writes none. -/
def sourceValue (source : List Char) (numeral : Numeral) : Float :=
  (Numeral.floatOfText? source).getD numeral.toSingle

/-- The value that the text of a dimension writes without its unit, or the sum of its digits. -/
def dimensionSourceValue (source unit : List Char) (numeral : Numeral) : Float :=
  match leftOf? source unit with
  | some left => sourceValue left numeral
  | none => numeral.toSingle

/-- Reads a number from its text. -/
def numberFromSource : Reader Float :=
  ofToken fun lexeme =>
    match lexeme.token with
    | .number numeral => .ok (sourceValue lexeme.text numeral)
    | _ => .error .unexpectedToken

/-- Reads a number with a unit from its text; a number without one has the implied unit. -/
def quantityFromSource {Kind : Type} (implied : Kind) (unitOf : List Char → Option Kind) :
    Reader (Float × Kind) :=
  ofToken fun lexeme =>
    match lexeme.token with
    | .number numeral => .ok (sourceValue lexeme.text numeral, implied)
    | .dimension numeral unitName =>
        match unitOf unitName with
        | some unit => .ok (dimensionSourceValue lexeme.text unitName numeral, unit)
        | none => .error .unknownUnit
    | _ => .error .unexpectedToken

/-- The unit that a number or a dimension counts: a number has the implied one. -/
inductive HasUnit {Kind : Type} (implied : Kind) (unitOf : List Char → Option Kind) :
    Token → Kind → Prop
  | number {numeral : Numeral} : HasUnit implied unitOf (.number numeral) implied
  | dimension {numeral : Numeral} {name : List Char} {unit : Kind}
      (found : unitOf name = some unit) : HasUnit implied unitOf (.dimension numeral name) unit

/--
What the value of a number or of a dimension is read from. A number writes its value, and so does
the numeral of a dimension, which is what is left of the dimension if its unit is spelled without an
escape. Otherwise what is left goes on beyond the numeral and writes no value.
-/
inductive IsValueOf : Lexeme → Float → Prop
  | number {numeral : Numeral} {source : List Char} {value : Float}
      (spells : numeral.Spells source) (writes : Numeral.floatOfText? source = some value) :
      IsValueOf ⟨.number numeral, source⟩ value
  | plain {numeral : Numeral} {unit number suffix : List Char} {value : Float}
      (spells : numeral.Spells number) (spellsUnit : Name.Spells suffix unit)
      (plain : '\\' ∉ number ++ suffix) (left : leftOf? (number ++ suffix) unit = some number)
      (writes : Numeral.floatOfText? number = some value) :
      IsValueOf ⟨.dimension numeral unit, number ++ suffix⟩ value
  | escaped {numeral : Numeral} {unit number suffix beyond : List Char}
      (spells : numeral.Spells number) (spellsUnit : Name.Spells suffix unit)
      (escaped : '\\' ∈ suffix) (left : leftOf? (number ++ suffix) unit = some (number ++ beyond))
      (goesOn : beyond ≠ []) (writesNone : Numeral.floatOfText? (number ++ beyond) = none) :
      IsValueOf ⟨.dimension numeral unit, number ++ suffix⟩ numeral.toSingle

section Lexemes

variable {text source unit : List Char} {numeral : Numeral}

theorem leftOf?_append (number : List Char) {suffix : List Char} (narrow : IsNarrow suffix)
    (shorter : unit.length ≤ suffix.length) (narrowUnit : IsNarrow unit) :
    leftOf? (number ++ suffix) unit =
      some (number ++ suffix.take (suffix.length - unit.length)) := by
  have narrowFront : IsNarrow (suffix.take (suffix.length - unit.length)) :=
    fun character member => narrow character (List.mem_of_mem_take member)
  have length : (suffix.take (suffix.length - unit.length)).length =
      suffix.length - unit.length := List.length_take_of_le (Nat.sub_le _ _)
  have bytes : Text.byteLength (number ++ suffix) - Text.byteLength unit =
      Text.byteLength (number ++ suffix.take (suffix.length - unit.length)) := by
    rw [Text.byteLength_append, Text.byteLength_append, narrow.byteLength_eq,
      narrowUnit.byteLength_eq, narrowFront.byteLength_eq, length]
    omega
  have fits : Text.byteLength unit ≤ Text.byteLength (number ++ suffix) := by
    rw [Text.byteLength_append, narrow.byteLength_eq, narrowUnit.byteLength_eq]
    omega
  have whole : number ++ suffix = number ++ suffix.take (suffix.length - unit.length) ++
      suffix.drop (suffix.length - unit.length) := by
    rw [List.append_assoc, List.take_append_drop]
  have taken := Text.takeBytes_byteLength (number ++ suffix.take (suffix.length - unit.length))
    (suffix.drop (suffix.length - unit.length))
  rw [← whole] at taken
  rw [leftOf?, if_pos fits, bytes, taken]

theorem isValueOf_number (member : ⟨.number numeral, source⟩ ∈ Lexeme.ofText text) :
    IsValueOf ⟨.number numeral, source⟩ numeral.toFloat := by
  rcases Lexeme.exists_front_of_mem member with ⟨rest, _, nonempty, front⟩
  rcases Lexeme.mk.inj front with ⟨token, spelled⟩
  have spells := Token.spells_of_scan_number nonempty token.symm
  rw [← spelled] at spells
  exact .number spells (Numeral.floatOfText?_of_spells spells)

/-- What is left of a dimension beyond its numeral makes the numeral write no value. -/
theorem floatOfText?_beyond {number suffix rest : List Char} {count : Nat}
    (parts : Token.DimensionParts text numeral unit number suffix rest) (positive : 0 < count)
    (within : count ≤ suffix.length) :
    Numeral.floatOfText? (number ++ suffix.take count) = none := by
  have front : text.take (number.length + count) = number ++ suffix.take count := by
    rw [parts.parts, List.take_length_add_append, List.take_append_of_le_length within]
  have noPoint : (text.drop (Numeral.scan text).2).head? ≠ some '.' := by
    rw [parts.scanned, parts.parts, List.drop_left]
    exact Name.head?_ne_point parts.startsUnit
  rw [← front]
  apply Numeral.floatOfText?_eq_none_of_longer parts.starts noPoint
  · rw [parts.scanned]
    exact Nat.lt_add_of_pos_right positive
  · rw [parts.parts, List.length_append, List.length_append]
    omega

theorem isValueOf_dimension (member : ⟨.dimension numeral unit, source⟩ ∈ Lexeme.ofText text)
    (narrow : IsNarrow unit) :
    IsValueOf ⟨.dimension numeral unit, source⟩ (dimensionValue source numeral unit) := by
  rcases Lexeme.exists_front_of_mem member with ⟨front, _, nonempty, isFront⟩
  rcases Lexeme.mk.inj isFront with ⟨token, spelled⟩
  rcases Token.exists_dimensionParts nonempty token.symm with
    ⟨number, suffix, rest, parts, taken⟩
  rw [spelled, taken]
  have narrowSuffix := parts.spellsUnit.isNarrow narrow
  by_cases escaped : '\\' ∈ suffix
  · have shorter := parts.spellsUnit.length_lt narrow escaped
    have left := leftOf?_append number narrowSuffix shorter.le narrow
    have writesNone := floatOfText?_beyond parts (Nat.sub_pos_of_lt shorter) (Nat.sub_le _ _)
    have hidden : plainNumeral? (number ++ suffix) unit = none := by
      change (leftOf? (number ++ suffix) unit).bind Numeral.ofText? = none
      rw [left, Option.bind_some]
      exact Numeral.ofText?_eq_none writesNone
    rw [dimensionValue_eq, hidden]
    refine .escaped parts.spells parts.spellsUnit escaped left ?_ writesNone
    apply List.ne_nil_of_length_pos
    rw [List.length_take_of_le (Nat.sub_le _ _)]
    exact Nat.sub_pos_of_lt shorter
  · have same := parts.spellsUnit.eq_of_plain narrow escaped
    have left := leftOf?_append number narrowSuffix (same ▸ Nat.le_refl _) narrow
    rw [same, Nat.sub_self, List.take_zero, List.append_nil] at left
    rw [same, dimensionValue_of_spells parts.spells]
    have plain : '\\' ∉ number ++ suffix := by simp [parts.spells.plain, escaped]
    exact .plain parts.spells (same ▸ parts.spellsUnit) plain left
      (Numeral.floatOfText?_of_spells parts.spells)

theorem IsValueOf.sourceValue_eq {value : Float}
    (isValue : IsValueOf ⟨.number numeral, source⟩ value) : sourceValue source numeral = value := by
  cases isValue with
  | number _ writes => rw [sourceValue, writes, Option.getD_some]

theorem IsValueOf.dimensionSourceValue_eq {value : Float}
    (isValue : IsValueOf ⟨.dimension numeral unit, source⟩ value) :
    dimensionSourceValue source unit numeral = value := by
  cases isValue with
  | plain _ _ _ left writes =>
      simp only [dimensionSourceValue, left, sourceValue, writes, Option.getD_some]
  | escaped _ _ _ left _ writesNone =>
      simp only [dimensionSourceValue, left, sourceValue, writesNone, Option.getD_none]

end Lexemes

section Places

variable {text : String} {cursor : Cursor} {Value Kind : Type}

theorem ofToken_congr {read other : Lexeme → Except ReadError Value} (isIn : cursor.IsIn text)
    (same : ∀ lexeme ∈ Lexeme.ofText text.toList, read lexeme = other lexeme) :
    ofToken read cursor = ofToken other cursor := by
  unfold ofToken Cursor.next
  rcases ahead : cursor.settle.rest with _ | ⟨lexeme, rest⟩
  · rfl
  · simp only [same lexeme (isIn.mem_of_ahead ahead)]

theorem ofToken_eq_ok_iff {read : Lexeme → Except ReadError Value} {value : Value} :
    (ofToken read cursor).1 = .ok value ↔
      ∃ lexeme rest, cursor.settle.rest = lexeme :: rest ∧ read lexeme = .ok value := by
  unfold ofToken Cursor.next
  rcases cursor.settle.rest with _ | ⟨lexeme, rest⟩ <;> simp

theorem numberFromSource_eq (isIn : cursor.IsIn text) : numberFromSource cursor = number cursor := by
  apply ofToken_congr isIn
  rintro ⟨token, source⟩ member
  cases token with
  | number numeral => exact congrArg Except.ok (isValueOf_number member).sourceValue_eq
  | _ => rfl

variable {implied : Kind} {unitOf : List Char → Option Kind}

theorem quantityFromSource_eq (isIn : cursor.IsIn text)
    (narrow : ∀ name unit, unitOf name = some unit → IsNarrow name) :
    quantityFromSource implied unitOf cursor = quantity implied unitOf cursor := by
  apply ofToken_congr isIn
  rintro ⟨token, source⟩ member
  cases token with
  | number numeral => simp only [(isValueOf_number member).sourceValue_eq]
  | dimension numeral name =>
      dsimp only
      rcases found : unitOf name with _ | unit
      · rfl
      · dsimp only
        rw [(isValueOf_dimension member (narrow name unit found)).dimensionSourceValue_eq]
  | _ => rfl

theorem number_eq_ok_iff (isIn : cursor.IsIn text) {value : Float} :
    (number cursor).1 = .ok value ↔
      ∃ numeral source rest, cursor.settle.rest = ⟨.number numeral, source⟩ :: rest ∧
        IsValueOf ⟨.number numeral, source⟩ value := by
  rw [number, ofToken_eq_ok_iff]
  constructor
  · rintro ⟨⟨token, source⟩, rest, ahead, taken⟩
    cases token with
    | number numeral =>
        have isValue := isValueOf_number (isIn.mem_of_ahead ahead)
        rw [Except.ok.inj taken] at isValue
        exact ⟨numeral, source, rest, ahead, isValue⟩
    | _ => cases taken
  · rintro ⟨numeral, source, rest, ahead, isValue⟩
    have same := (isValueOf_number (isIn.mem_of_ahead ahead)).sourceValue_eq
    rw [isValue.sourceValue_eq] at same
    exact ⟨_, rest, ahead, congrArg Except.ok same.symm⟩

theorem quantity_eq_ok_iff (isIn : cursor.IsIn text)
    (narrow : ∀ name unit, unitOf name = some unit → IsNarrow name) {value : Float} {unit : Kind} :
    (quantity implied unitOf cursor).1 = .ok (value, unit) ↔
      ∃ lexeme rest, cursor.settle.rest = lexeme :: rest ∧
        HasUnit implied unitOf lexeme.token unit ∧ IsValueOf lexeme value := by
  rw [← quantityFromSource_eq isIn narrow, quantityFromSource, ofToken_eq_ok_iff]
  apply exists_congr
  rintro ⟨token, source⟩
  apply exists_congr
  intro rest
  apply and_congr_right
  intro ahead
  have member := isIn.mem_of_ahead ahead
  constructor
  · intro taken
    cases token with
    | number numeral =>
        rcases Prod.mk.inj (Except.ok.inj taken) with ⟨rfl, rfl⟩
        have isValue := isValueOf_number member
        rw [← isValue.sourceValue_eq] at isValue
        exact ⟨.number, isValue⟩
    | dimension numeral name =>
        dsimp only at taken
        split at taken
        · rename_i found
          rcases Prod.mk.inj (Except.ok.inj taken) with ⟨rfl, rfl⟩
          have isValue := isValueOf_dimension member (narrow name _ found)
          rw [← isValue.dimensionSourceValue_eq] at isValue
          exact ⟨.dimension found, isValue⟩
        · cases taken
    | _ => cases taken
  · rintro ⟨hasUnit, isValue⟩
    cases hasUnit with
    | number => simp only [isValue.sourceValue_eq]
    | dimension found => simp only [found, isValue.dimensionSourceValue_eq]

end Places

/--
From every place of a text, the value of a number is the one that its text writes. That of a
dimension is the one that its numeral writes if the unit is spelled without an escape, and the sum
of the digits if it is spelled with one. To take the bytes of the unit away from the dimension never
takes away too much or cuts through a character. It leaves the numeral or, behind an escape, what
writes no value at all.
-/
theorem value_eq_iff {text : String} {cursor : Cursor} (isIn : cursor.IsIn text) :
    (numberFromSource cursor = number cursor ∧
      quantityFromSource .pixels LengthUnit.ofName? cursor =
        quantity .pixels LengthUnit.ofName? cursor ∧
      quantityFromSource .perInch ResolutionUnit.ofName? cursor =
        quantity .perInch ResolutionUnit.ofName? cursor) ∧
    (∀ value, (number cursor).1 = .ok value ↔
      ∃ numeral source rest, cursor.settle.rest = ⟨.number numeral, source⟩ :: rest ∧
        IsValueOf ⟨.number numeral, source⟩ value) ∧
    (∀ measured : Length, (length cursor).1 = .ok measured ↔
      ∃ lexeme rest, cursor.settle.rest = lexeme :: rest ∧
        HasUnit .pixels LengthUnit.ofName? lexeme.token measured.unit ∧
        IsValueOf lexeme measured.value) ∧
    ∀ measured : Resolution, (resolution cursor).1 = .ok measured ↔
      ∃ lexeme rest, cursor.settle.rest = lexeme :: rest ∧
        HasUnit .perInch ResolutionUnit.ofName? lexeme.token measured.unit ∧
        IsValueOf lexeme measured.value := by
  have narrowLength : ∀ name unit, LengthUnit.ofName? name = some unit → IsNarrow name :=
    fun _ _ found => LengthUnit.isNarrow_of_ofName? found
  have narrowResolution : ∀ name unit, ResolutionUnit.ofName? name = some unit → IsNarrow name :=
    fun _ _ found => ResolutionUnit.isNarrow_of_ofName? found
  refine ⟨⟨numberFromSource_eq isIn, quantityFromSource_eq isIn narrowLength,
    quantityFromSource_eq isIn narrowResolution⟩, fun _ => number_eq_ok_iff isIn, ?_, ?_⟩
  · intro measured
    rw [← quantity_eq_ok_iff isIn narrowLength]
    exact map_eq_ok_iff_of_injective Length.injective_mk (measured.value, measured.unit)
  · intro measured
    rw [← quantity_eq_ok_iff isIn narrowResolution]
    exact map_eq_ok_iff_of_injective Resolution.injective_mk (measured.value, measured.unit)

/-- An exponent in front of an escaped unit that starts like one, and a unit without an escape. -/
theorem value_eq_iff_escaped :
    ((Cursor.start "1e1\\65 m").IsIn "1e1\\65 m" ∧
      (length (Cursor.start "1e1\\65 m")).1 = .ok ⟨10, .ems⟩) ∧
    (Cursor.start "1e1dPi").IsIn "1e1dPi" ∧
      (resolution (Cursor.start "1e1dPi")).1 = .ok ⟨10, .perInch⟩ := by
  have one : Numeral.IsDigits ['1'] := by
    refine ⟨by decide, fun digit member => ?_⟩
    rw [List.mem_singleton.mp member]
    rfl
  have isExponent : Numeral.IsExponent (some 1) ['e', '1'] :=
    @Numeral.IsExponent.present 'e' false [] _ (Or.inl rfl) .absent one
  have spells : Numeral.Spells ['1', 'e', '1'] ⟨false, [1], [], some 1⟩ :=
    .parts .absent (.whole one) isExponent
  have single : Numeral.toSingle ⟨false, [1], [], some 1⟩ = 10 := by decide +kernel
  have double : Numeral.toFloat ⟨false, [1], [], some 1⟩ = 10 := by decide +kernel
  have spellsEms : Name.Spells ['\\', '6', '5', ' ', 'm'] ['e', 'm'] :=
    .escape (@Name.IsEscape.code ['6', '5'] [' '] (by decide) (by decide)
      (List.all_eq_true.mp rfl) (.space (by decide))) (.part (by decide) .nil)
  have spellsDots : Name.Spells ['d', 'P', 'i'] ['d', 'P', 'i'] :=
    .part (by decide) (.part (by decide) (.part (by decide) .nil))
  have isInEms := Cursor.IsIn.start "1e1\\65 m"
  have isInDots := Cursor.IsIn.start "1e1dPi"
  refine ⟨⟨isInEms, ?_⟩, isInDots, ?_⟩
  · rw [← single]
    have ahead : (Cursor.start "1e1\\65 m").settle.rest =
        [⟨.dimension ⟨false, [1], [], some 1⟩ ['e', 'm'],
          ['1', 'e', '1'] ++ ['\\', '6', '5', ' ', 'm']⟩] := by decide
    refine ((value_eq_iff isInEms).2.2.1 _).mpr ⟨_, _, ahead, .dimension rfl, ?_⟩
    exact @IsValueOf.escaped _ ['e', 'm'] ['1', 'e', '1'] _ ['\\', '6', '5'] spells spellsEms
      (by decide) (by decide) (by decide) (by rfl)
  · rw [← double]
    have ahead : (Cursor.start "1e1dPi").settle.rest =
        [⟨.dimension ⟨false, [1], [], some 1⟩ ['d', 'P', 'i'],
          ['1', 'e', '1'] ++ ['d', 'P', 'i']⟩] := by decide
    refine ((value_eq_iff isInDots).2.2.2 _).mpr ⟨_, _, ahead, .dimension rfl, ?_⟩
    exact @IsValueOf.plain _ ['d', 'P', 'i'] ['1', 'e', '1'] _ _ spells spellsDots (by decide)
      (by decide) (by rfl)

end Reader

end MediaQuery
