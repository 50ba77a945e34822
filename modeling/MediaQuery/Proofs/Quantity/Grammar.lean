import MediaQuery.Proofs.Lexeme.Blank
import MediaQuery.Proofs.Lexeme.Numeric
import MediaQuery.Proofs.Number.Value
import MediaQuery.Proofs.Quantity.Solid
import MediaQuery.Proofs.Text.Bytes

/-!
# The grammar of quantities

A text without escapes is a quantity exactly if it is written as one: numbers, units and slashes
as the grammar has them, with nothing but blank text around them. The value is then that of the
numerals that are written, each the number nearest to what it writes.
-/

namespace MediaQuery

open Lexeme (solid ofText)
open Text (Blank Ending Stops)

namespace Lexeme

variable {text : List Char} {lexeme : Lexeme}

/-- The first solid lexeme of a text stands between blank text and the rest of it. -/
theorem exists_of_solid_eq_cons {others : List Lexeme}
    (solids : solid (ofText text) = lexeme :: others) :
    ∃ lead rest, text = lead ++ (lexeme.text ++ rest) ∧ Blank lead ∧
      (lexeme.text ++ rest ≠ [] ∧ lexeme = front (lexeme.text ++ rest)) ∧
        solid (ofText rest) = others := by
  rcases List.filter_eq_cons_iff.mp solids with ⟨blanks, back, parts, blank, _, behind⟩
  have blank : ∀ lexeme ∈ blanks, lexeme.isBlank = true := by simpa using blank
  have spelled : text = textOf blanks ++ (lexeme.text ++ textOf back) := by
    rw [← textOf_ofText text, parts, textOf_append, textOf_cons]
  have readsBack : ofText (textOf back) = back := by
    have partsBack : ofText text = (blanks ++ [lexeme]) ++ back := by simp [parts]
    exact ofText_textOf_of_append partsBack
  have readsFront : ofText (lexeme.text ++ textOf back) = lexeme :: back :=
    ofText_textOf_of_append parts
  have nonempty : lexeme.text ++ textOf back ≠ [] := by
    intro nothing
    simp [nothing] at readsFront
  rw [ofText_eq_cons nonempty, List.cons.injEq] at readsFront
  refine ⟨textOf blanks, textOf back, spelled,
    (Text.ending_of_isBlank blank parts).2 (by simp), ⟨nonempty, readsFront.1.symm⟩, ?_⟩
  rw [readsBack]
  exact behind

theorem ending_of_solid_eq_nil (solids : solid (ofText text) = []) : Ending text := by
  have blank : ∀ lexeme ∈ ofText text, lexeme.isBlank = true := by
    simpa [solid] using solids
  have ending := (Text.ending_of_isBlank blank (List.append_nil (ofText text)).symm).1
  rwa [textOf_ofText] at ending

theorem solid_ofText_of_ending (ending : Ending text) : solid (ofText text) = [] := by
  rcases ending.reads with ⟨lexemes, blank, reads⟩
  rw [reads.ofText_eq, solid_of_isBlank blank]

theorem solid_ofText_append {lead piece rest : List Char} (blank : Blank lead)
    (reads : Reads piece [lexeme] rest) (isSolid : lexeme.isBlank = false) :
    solid (ofText (lead ++ (piece ++ rest))) = lexeme :: solid (ofText rest) := by
  rcases blank.reads with ⟨blanks, blank, readsLead⟩
  rw [readsLead, reads, solid_append, solid_of_isBlank blank, List.nil_append, solid_append]
  simp [solid, isSolid]

end Lexeme

/-- A numeral and a suffix that touches it, with nothing but blank text around them. -/
def IsQuantity (text : List Char) (numeral : Numeral) (suffix : List Char) : Prop :=
  ∃ lead number tail, text = lead ++ (number ++ (suffix ++ tail)) ∧
    Blank lead ∧ numeral.Spells number ∧ Ending tail

/-- A text with nothing but a dimension on it: its numeral, its unit and its spelling. -/
def IsDimension (text : List Char) (numeral : Numeral) (suffix spelled : List Char) : Prop :=
  solid (ofText text) = [⟨.dimension numeral suffix, spelled⟩]

/-- Two numerals and a slash between them, with nothing but blank text around all three. -/
def IsRatio (text : List Char) (upper lower : Numeral) : Prop :=
  ∃ lead first before after second tail,
    text = lead ++ (first ++ (before ++ '/' :: (after ++ (second ++ tail)))) ∧
      (Blank lead ∧ Blank before ∧ Blank after ∧ Ending tail) ∧
        upper.Spells first ∧ lower.Spells second

/--
How a number with a unit is written: a numeral and the name of the unit, in any letter case, or a
numeral alone for the implied unit, with nothing but blank text around them. The number is the one
nearest to what the numeral writes.
-/
def IsMeasured {Kind : Type} (name : Kind → List Char) (implied : Kind) (text : List Char)
    (value : Float) (unit : Kind) : Prop :=
  ∃ numeral suffix, IsQuantity text numeral suffix ∧
    (Text.lower suffix = name unit ∨ suffix = [] ∧ unit = implied) ∧ numeral.IsValue value

section Lexemes

variable {text : List Char} {numeral : Numeral}

theorem exists_of_number {spelled : List Char} {others : List Lexeme}
    (solids : solid (ofText text) = ⟨.number numeral, spelled⟩ :: others) :
    ∃ lead rest, text = lead ++ (spelled ++ rest) ∧ Blank lead ∧
      numeral.Spells spelled ∧ solid (ofText rest) = others := by
  rcases Lexeme.exists_of_solid_eq_cons solids with
    ⟨lead, rest, whole, blank, ⟨nonempty, front⟩, behind⟩
  rcases Lexeme.mk.inj front with ⟨token, spelling⟩
  have spells := Token.spells_of_scan_number nonempty token.symm
  rw [← spelling] at spells
  exact ⟨lead, rest, whole, blank, spells, behind⟩

/-- A text with nothing but a number on it is read as that number. -/
theorem isQuantity_nil_iff : IsQuantity text numeral [] ↔
    ∃ spelled, solid (ofText text) = [⟨.number numeral, spelled⟩] := by
  constructor
  · rintro ⟨lead, number, tail, rfl, blank, spells, ending⟩
    refine ⟨number, ?_⟩
    rw [List.nil_append, Lexeme.solid_ofText_append blank (.number spells ending.stops) rfl,
      Lexeme.solid_ofText_of_ending ending]
  · rintro ⟨spelled, solids⟩
    rcases exists_of_number solids with ⟨lead, rest, whole, blank, spells, behind⟩
    exact ⟨lead, spelled, rest, whole, blank, spells, Lexeme.ending_of_solid_eq_nil behind⟩

theorem solid_of_isQuantity {unit : List Char} (isUnit : IsUnitName unit)
    (isQuantity : IsQuantity text numeral unit) :
    ∃ number, solid (ofText text) = [⟨.dimension numeral unit, number ++ unit⟩] ∧
      numeral.Spells number := by
  rcases isQuantity with ⟨lead, number, tail, rfl, blank, spells, ending⟩
  refine ⟨number, ?_, spells⟩
  rw [← List.append_assoc number,
    Lexeme.solid_ofText_append blank (.dimension spells isUnit ending.stops) rfl,
    Lexeme.solid_ofText_of_ending ending]

theorem isQuantity_of_solid {unit spelled : List Char} (plain : '\\' ∉ text)
    (visible : Character.replacement ∉ unit)
    (solids : solid (ofText text) = [⟨.dimension numeral unit, spelled⟩]) :
    IsQuantity text numeral unit ∧ ∃ number, spelled = number ++ unit ∧ numeral.Spells number := by
  rcases Lexeme.exists_of_solid_eq_cons solids with
    ⟨lead, rest, rfl, blank, ⟨nonempty, front⟩, behind⟩
  rcases Lexeme.mk.inj front with ⟨token, spelling⟩
  rcases Token.spells_of_scan_dimension nonempty
    (fun member => plain (List.mem_append_right _ member)) visible token.symm with
    ⟨number, parts, spells⟩
  rw [← spelling] at parts
  refine ⟨⟨lead, number, rest, ?_, blank, spells, Lexeme.ending_of_solid_eq_nil behind⟩,
    number, parts, spells⟩
  rw [parts, List.append_assoc]

/-- A text with nothing but two numbers and a slash on it is read as these. -/
theorem isRatio_iff {lower : Numeral} : IsRatio text numeral lower ↔
    ∃ first slash second, solid (ofText text) =
      [⟨.number numeral, first⟩, slash, ⟨.number lower, second⟩] ∧
        slash.token = .delimiter '/' := by
  constructor
  · rintro ⟨lead, first, before, after, second, tail, rfl, ⟨blank, blankBefore, blankAfter, ending⟩,
      spells, spellsSecond⟩
    have noComment : (after ++ (second ++ tail)).head? ≠ some '*' := by
      cases blankAfter with
      | nil =>
          rcases spellsSecond.scan_append (Numeral.ends_of_stops ending.stops) with ⟨starts, _⟩
          rcases Numeral.exists_cons_of_starts starts with ⟨sign, rest, whole, kind⟩
          rw [List.nil_append, whole, List.head?_cons]
          rintro star
          rw [Option.some.inj star] at kind
          revert kind
          decide
      | space space _ =>
          rintro star
          rw [List.cons_append, List.head?_cons, Option.some.injEq] at star
          rw [star] at space
          exact absurd space (by decide)
      | comment _ _ => simp
    have stops : Stops (before ++ '/' :: (after ++ (second ++ tail))) :=
      blankBefore.stops (Text.stops_cons.mpr (by decide))
    have solidsBefore : solid (ofText (before ++ (['/'] ++ (after ++ (second ++ tail))))) =
        ⟨.delimiter '/', ['/']⟩ :: solid (ofText (after ++ (second ++ tail))) :=
      Lexeme.solid_ofText_append blankBefore (.slash noComment) rfl
    rw [List.singleton_append] at solidsBefore
    refine ⟨first, ⟨.delimiter '/', ['/']⟩, second, ?_, rfl⟩
    rw [Lexeme.solid_ofText_append blank (.number spells stops) rfl, solidsBefore,
      Lexeme.solid_ofText_append blankAfter (.number spellsSecond ending.stops) rfl,
      Lexeme.solid_ofText_of_ending ending]
  · rintro ⟨first, ⟨token, spelled⟩, second, solids, isSlash⟩
    rcases exists_of_number solids with ⟨lead, rest, rfl, blank, spells, behind⟩
    rcases Lexeme.exists_of_solid_eq_cons behind with
      ⟨before, behindSlash, rfl, blankBefore, ⟨nonempty, front⟩, behind⟩
    rcases Lexeme.mk.inj front with ⟨sameToken, spelling⟩
    rcases Token.scan_delimiter nonempty (sameToken.symm.trans isSlash) with ⟨more, starts, length⟩
    rcases exists_of_number behind with ⟨after, tail, rfl, blankAfter, spellsSecond, behind⟩
    have slash : spelled = ['/'] := by
      rw [spelling, length]
      simp only at starts
      rw [starts, List.take_succ_cons, List.take_zero]
    refine ⟨lead, first, before, after, second, tail, ?_,
      ⟨blank, blankBefore, blankAfter, Lexeme.ending_of_solid_eq_nil behind⟩, spells,
      spellsSecond⟩
    rw [slash]
    rfl

end Lexemes

/-- The name of a unit of length. -/
def LengthUnit.name : LengthUnit → List Char
  | .pixels => ['p', 'x']
  | .ems => ['e', 'm']
  | .rootEms => ['r', 'e', 'm']
  | .centimeters => ['c', 'm']
  | .millimeters => ['m', 'm']
  | .inches => ['i', 'n']
  | .points => ['p', 't']
  | .picas => ['p', 'c']

/-- The name of a unit of resolution. -/
def ResolutionUnit.name : ResolutionUnit → List Char
  | .perInch => ['d', 'p', 'i']
  | .perCentimeter => ['d', 'p', 'c', 'm']
  | .perPixel => ['d', 'p', 'p', 'x']

theorem LengthUnit.ofName?_eq_some_iff {name : List Char} {unit : LengthUnit} :
    ofName? name = some unit ↔ Text.lower name = unit.name := by
  constructor
  · intro found
    unfold ofName? at found
    split at found <;> cases found
    all_goals
      rename_i spelled
      have characters := congrArg String.toList spelled
      rw [String.toList_ofList] at characters
      exact characters
  · intro spelled
    rw [ofName?, spelled]
    cases unit <;> rfl

theorem ResolutionUnit.ofName?_eq_some_iff {name : List Char} {unit : ResolutionUnit} :
    ofName? name = some unit ↔ Text.lower name = unit.name := by
  constructor
  · intro found
    unfold ofName? at found
    split at found <;> cases found
    all_goals
      rename_i spelled
      have characters := congrArg String.toList spelled
      rw [String.toList_ofList] at characters
      exact characters
  · intro spelled
    rw [ofName?, spelled]
    cases unit <;> rfl

theorem LengthUnit.isUnitName (unit : LengthUnit) : IsUnitName unit.name := by
  cases unit <;> decide

theorem ResolutionUnit.isUnitName (unit : ResolutionUnit) : IsUnitName unit.name := by
  cases unit <;> decide

theorem map_eq_ok_iff {Value Image : Type} {read : Except ReadError Value} {image : Value → Image}
    {result : Image} :
    read.map image = .ok result ↔ ∃ value, read = .ok value ∧ result = image value := by
  cases read <;> simp [Except.map, eq_comm]

theorem map_eq_ok_iff_of_injective {Value Image : Type} {read : Except ReadError Value}
    {image : Value → Image} (injective : Function.Injective image) (value : Value) :
    read.map image = .ok (image value) ↔ read = .ok value := by
  rw [map_eq_ok_iff]
  constructor
  · rintro ⟨other, isRead, same⟩
    rw [isRead, injective same]
  · intro isRead
    exact ⟨value, isRead, rfl⟩

theorem Length.injective_mk :
    Function.Injective fun read : Float × LengthUnit => Length.mk read.1 read.2 :=
  fun _ _ same => Prod.ext (congrArg Length.value same) (congrArg Length.unit same)

theorem Resolution.injective_mk :
    Function.Injective fun read : Float × ResolutionUnit => Resolution.mk read.1 read.2 :=
  fun _ _ same => Prod.ext (congrArg Resolution.value same) (congrArg Resolution.unit same)

namespace Reader

/-- The numeral that is left of the text of a dimension less as many bytes as its unit has. -/
def plainNumeral? (text unit : List Char) : Option Numeral :=
  let digits :=
    if Text.byteLength unit ≤ Text.byteLength text then
      Text.takeBytes (Text.byteLength text - Text.byteLength unit) text
    else
      none
  digits.bind Numeral.ofText?

theorem dimensionValue_eq (text : List Char) (numeral : Numeral) (unit : List Char) :
    dimensionValue text numeral unit =
      match plainNumeral? text unit with
      | some plain => plain.toFloat
      | none => numeral.toSingle :=
  rfl

theorem plainNumeral?_of_spells {number : List Char} {numeral : Numeral}
    (spells : numeral.Spells number) (unit : List Char) :
    plainNumeral? (number ++ unit) unit = some numeral := by
  have plain : Numeral.ofText? number = some numeral := by
    rcases spells.scan_append (Numeral.ends_of_stops Text.stops_nil) with ⟨starts, scanned⟩
    rw [List.append_nil] at starts scanned
    simp [Numeral.ofText?, starts, scanned]
  have fits : Text.byteLength unit ≤ Text.byteLength (number ++ unit) := by
    rw [Text.byteLength_append]
    exact Nat.le_add_left _ _
  rw [plainNumeral?, if_pos fits, Text.byteLength_append, Nat.add_sub_cancel,
    Text.takeBytes_byteLength, Option.bind_some, plain]

theorem dimensionValue_of_spells {number : List Char} {numeral : Numeral}
    (spells : numeral.Spells number) (unit : List Char) :
    dimensionValue (number ++ unit) numeral unit = numeral.toFloat := by
  rw [dimensionValue_eq, plainNumeral?_of_spells spells]

variable {Value : Type} {text : String}

theorem whole_ofToken_eq_ok_iff {read : Lexeme → Except ReadError Value}
    (numeric : ∀ lexeme value, read lexeme = .ok value → lexeme.token.isNumeric = true)
    {value : Value} :
    whole (ofToken read) text = .ok value ↔
      ∃ lexeme, solid (ofText text.toList) = [lexeme] ∧ read lexeme = .ok value := by
  rw [← toOption_eq_some_iff, toOption_whole_ofToken numeric]
  match solid (ofText text.toList) with
  | [] => simp [valueOfOnly]
  | [lexeme] => simp [valueOfOnly, toOption_eq_some_iff]
  | _ :: _ :: _ => simp [valueOfOnly]

theorem whole_number_eq_ok_iff {value : Float} :
    whole number text = .ok value ↔
      ∃ numeral, IsQuantity text.toList numeral [] ∧ value = numeral.toFloat := by
  rw [number, whole_ofToken_eq_ok_iff]
  · constructor
    · rintro ⟨⟨token, spelled⟩, only, taken⟩
      cases token with
      | number numeral =>
          exact ⟨numeral, isQuantity_nil_iff.mpr ⟨spelled, only⟩, (Except.ok.inj taken).symm⟩
      | _ => cases taken
    · rintro ⟨numeral, isQuantity, rfl⟩
      rcases isQuantity_nil_iff.mp isQuantity with ⟨spelled, only⟩
      exact ⟨_, only, rfl⟩
  · rintro ⟨token, text⟩ value taken
    cases token <;> first | rfl | cases taken

theorem whole_integer_eq_ok_iff {value : Int} :
    whole integer text = .ok value ↔
      ∃ numeral, IsQuantity text.toList numeral [] ∧ numeral.isInteger = true ∧
        value = Rounding.saturate 32 numeral.toInt := by
  rw [integer, whole_ofToken_eq_ok_iff]
  · constructor
    · rintro ⟨⟨token, spelled⟩, only, taken⟩
      cases token with
      | number numeral =>
          simp only at taken
          split at taken
          · rename_i isInteger
            exact ⟨numeral, isQuantity_nil_iff.mpr ⟨spelled, only⟩, isInteger,
              (Except.ok.inj taken).symm⟩
          · cases taken
      | _ => cases taken
    · rintro ⟨numeral, isQuantity, isInteger, rfl⟩
      rcases isQuantity_nil_iff.mp isQuantity with ⟨spelled, only⟩
      exact ⟨_, only, by simp [isInteger]⟩
  · rintro ⟨token, text⟩ value taken
    cases token <;> first | rfl | cases taken

/-- A number is read with the implied unit, and a dimension with the unit that its name has. -/
theorem whole_quantity_eq_ok_iff_solid {Kind : Type} {implied unit : Kind} {value : Float}
    {unitOf : List Char → Option Kind} :
    whole (quantity implied unitOf) text = .ok (value, unit) ↔
      (∃ numeral, IsQuantity text.toList numeral [] ∧ value = numeral.toFloat ∧ unit = implied) ∨
        ∃ numeral suffix spelled, IsDimension text.toList numeral suffix spelled ∧
          unitOf suffix = some unit ∧ value = dimensionValue spelled numeral suffix := by
  rw [quantity, whole_ofToken_eq_ok_iff]
  · constructor
    · rintro ⟨⟨token, spelled⟩, only, taken⟩
      cases token with
      | number numeral =>
          rcases Prod.mk.inj (Except.ok.inj taken) with ⟨rfl, rfl⟩
          exact Or.inl ⟨numeral, isQuantity_nil_iff.mpr ⟨spelled, only⟩, rfl, rfl⟩
      | dimension numeral suffix =>
          simp only at taken
          split at taken
          · rename_i found
            rcases Prod.mk.inj (Except.ok.inj taken) with ⟨rfl, rfl⟩
            exact Or.inr ⟨numeral, suffix, spelled, only, found, rfl⟩
          · cases taken
      | _ => cases taken
    · rintro (⟨numeral, isQuantity, rfl, rfl⟩ | ⟨numeral, suffix, spelled, only, found, rfl⟩)
      · rcases isQuantity_nil_iff.mp isQuantity with ⟨spelled, only⟩
        exact ⟨_, only, rfl⟩
      · exact ⟨_, only, by simp only [found]⟩
  · rintro ⟨token, text⟩ value taken
    cases token <;> first | rfl | cases taken

/-- Without escapes, a dimension is read with the number and the unit that are written. -/
theorem whole_quantity_eq_ok_iff {Kind : Type} {implied unit : Kind} {value : Float}
    {unitOf : List Char → Option Kind} {name : Kind → List Char}
    (named : ∀ suffix unit, unitOf suffix = some unit ↔ Text.lower suffix = name unit)
    (isUnitName : ∀ unit, IsUnitName (name unit)) (plain : '\\' ∉ text.toList) :
    whole (quantity implied unitOf) text = .ok (value, unit) ↔
      IsMeasured name implied text.toList value unit := by
  have isUnit : ∀ {suffix unit}, unitOf suffix = some unit → IsUnitName suffix := by
    intro suffix unit found
    apply IsUnitName.of_lower
    rw [(named suffix unit).mp found]
    exact isUnitName unit
  simp only [whole_quantity_eq_ok_iff_solid, IsMeasured, Numeral.isValue_iff]
  constructor
  · rintro (⟨numeral, isQuantity, rfl, rfl⟩ | ⟨numeral, suffix, spelled, only, found, rfl⟩)
    · exact ⟨numeral, [], isQuantity, Or.inr ⟨rfl, rfl⟩, rfl⟩
    · rcases isQuantity_of_solid plain (isUnit found).visible only with
        ⟨isQuantity, number, rfl, spells⟩
      exact ⟨numeral, suffix, isQuantity, Or.inl ((named suffix unit).mp found),
        dimensionValue_of_spells spells suffix⟩
  · rintro ⟨numeral, suffix, isQuantity, spelled | ⟨rfl, rfl⟩, rfl⟩
    · have found := (named suffix unit).mpr spelled
      rcases solid_of_isQuantity (isUnit found) isQuantity with ⟨number, only, spells⟩
      exact Or.inr ⟨numeral, suffix, number ++ suffix, only, found,
        (dimensionValue_of_spells spells suffix).symm⟩
    · exact Or.inl ⟨numeral, isQuantity, rfl, rfl⟩

/-- A reader that only packs what another one reads accepts the same texts. -/
theorem whole_map_eq_ok_iff {Source Image : Type} (reader : Reader Source)
    {pack : Source → Image} (injective : Function.Injective pack) (read : Source) :
    whole (fun cursor => ((reader cursor).1.map pack, (reader cursor).2)) text = .ok (pack read) ↔
      whole reader text = .ok read := by
  rw [whole_map, map_eq_ok_iff_of_injective injective]

theorem whole_length_eq_ok_iff {measured : Length} :
    whole length text = .ok measured ↔
      whole (quantity .pixels LengthUnit.ofName?) text = .ok (measured.value, measured.unit) := by
  exact whole_map_eq_ok_iff (quantity .pixels LengthUnit.ofName?) Length.injective_mk
    (measured.value, measured.unit)

theorem whole_resolution_eq_ok_iff {measured : Resolution} :
    whole resolution text = .ok measured ↔
      whole (quantity .perInch ResolutionUnit.ofName?) text =
        .ok (measured.value, measured.unit) := by
  exact whole_map_eq_ok_iff (quantity .perInch ResolutionUnit.ofName?) Resolution.injective_mk
    (measured.value, measured.unit)

/-- What is made of a number and its unit is made of those that are written. -/
theorem map_whole_quantity_eq_ok_iff {Kind Measure : Type} {implied : Kind} {result : Value}
    {unitOf : List Char → Option Kind} {name : Kind → List Char}
    {measure : Float × Kind → Measure} {toValue : Measure → Value}
    (named : ∀ suffix unit, unitOf suffix = some unit ↔ Text.lower suffix = name unit)
    (isUnitName : ∀ unit, IsUnitName (name unit)) (plain : '\\' ∉ text.toList) :
    (whole (fun cursor => ((quantity implied unitOf cursor).1.map measure,
        (quantity implied unitOf cursor).2)) text).map toValue = .ok result ↔
      ∃ number unit, IsMeasured name implied text.toList number unit ∧
        result = toValue (measure (number, unit)) := by
  rw [whole_map, map_eq_ok_iff]
  simp only [map_eq_ok_iff, Prod.exists, whole_quantity_eq_ok_iff named isUnitName plain]
  constructor
  · rintro ⟨_, ⟨number, unit, isMeasured, rfl⟩, rfl⟩
    exact ⟨number, unit, isMeasured, rfl⟩
  · rintro ⟨number, unit, isMeasured, rfl⟩
    exact ⟨_, ⟨number, unit, isMeasured, rfl⟩, rfl⟩

theorem exists_of_numberOf? {lexeme : Lexeme} {number : Float}
    (found : numberOf? lexeme = some number) :
    ∃ numeral spelled, lexeme = ⟨.number numeral, spelled⟩ ∧ number = numeral.toFloat := by
  rcases lexeme with ⟨token, spelled⟩
  cases token with
  | number numeral => exact ⟨numeral, spelled, rfl, (Option.some.inj found).symm⟩
  | _ => cases found

/-- One number is its own quotient by one, two with a slash are that of the first by the other. -/
theorem whole_ratio_eq_ok_iff {value : Ratio} :
    whole ratio text = .ok value ↔
      (∃ numeral, IsQuantity text.toList numeral [] ∧ value = ⟨numeral.toFloat, 1⟩) ∨
        ∃ upper lower, IsRatio text.toList upper lower ∧
          value = ⟨upper.toFloat, lower.toFloat⟩ := by
  rw [← toOption_eq_some_iff, toOption_whole_ratio]
  constructor
  · intro taken
    rcases solids : solid (ofText text.toList) with
      _ | ⟨first, _ | ⟨slash, _ | ⟨second, _ | _⟩⟩⟩ <;>
      rw [solids] at taken
    · cases taken
    · rcases Option.map_eq_some_iff.mp taken with ⟨number, found, rfl⟩
      rcases exists_of_numberOf? found with ⟨numeral, spelled, rfl, rfl⟩
      exact Or.inl ⟨numeral, isQuantity_nil_iff.mpr ⟨spelled, solids⟩, rfl⟩
    · cases taken
    · rw [ratioOf?] at taken
      split at taken
      · rename_i isSlash
        rcases Option.bind_eq_some_iff.mp taken with ⟨number, found, rest⟩
        rcases Option.map_eq_some_iff.mp rest with ⟨other, foundOther, rfl⟩
        rcases exists_of_numberOf? found with ⟨upper, spelled, rfl, rfl⟩
        rcases exists_of_numberOf? foundOther with ⟨lower, spelledOther, rfl, rfl⟩
        exact Or.inr ⟨upper, lower, isRatio_iff.mpr ⟨_, slash, _, solids, isSlash⟩, rfl⟩
      · cases taken
    · cases taken
  · rintro (⟨numeral, isQuantity, rfl⟩ | ⟨upper, lower, isRatio, rfl⟩)
    · rcases isQuantity_nil_iff.mp isQuantity with ⟨spelled, solids⟩
      rw [solids]
      rfl
    · rcases isRatio_iff.mp isRatio with ⟨first, slash, second, solids, isSlash⟩
      rw [solids, ratioOf?, if_pos isSlash]
      rfl

end Reader

/-- How an integer is written: a sign or none, digits, and nothing but blank text around them. -/
def IsIntegral (text : List Char) (value : Int) : Prop :=
  ∃ lead negative sign digits tail, text = lead ++ (sign ++ (digits ++ tail)) ∧
    (Blank lead ∧ Ending tail) ∧ Numeral.IsSign negative sign ∧ Numeral.IsDigits digits ∧
      value = Numeral.signed negative digits

theorem isIntegral_iff {text : List Char} {value : Int} : IsIntegral text value ↔
    ∃ numeral, IsQuantity text numeral [] ∧ numeral.isInteger = true ∧ value = numeral.toInt := by
  constructor
  · rintro ⟨lead, negative, sign, digits, tail, rfl, ⟨blank, ending⟩, isSign, isDigits, rfl⟩
    have spells := Numeral.Spells.parts isSign (.whole isDigits) .absent
    rw [List.append_nil] at spells
    refine ⟨_, ⟨lead, sign ++ digits, tail, ?_, blank, spells, ending⟩, rfl, rfl⟩
    simp
  · rintro ⟨numeral, ⟨lead, number, tail, rfl, blank, spells, ending⟩, isInteger, rfl⟩
    rcases spells with @⟨negative, scale, sign, whole, fraction, digits, exponent, isSign,
      isUnsigned, isExponent⟩
    rw [Numeral.isInteger, Bool.and_eq_true, List.isEmpty_iff, Option.isNone_iff_eq_none,
      List.map_eq_nil_iff] at isInteger
    rcases isInteger with ⟨rfl, rfl⟩
    have isDigits : Numeral.IsDigits whole ∧ digits = whole := by
      generalize noFraction : ([] : List Char) = fraction at isUnsigned
      cases isUnsigned with
      | whole isDigits => exact ⟨isDigits, rfl⟩
      | both _ isFraction => exact absurd noFraction.symm isFraction.nonempty
      | fraction isFraction => exact absurd noFraction.symm isFraction.nonempty
    rcases isDigits with ⟨isDigits, rfl⟩
    cases isExponent
    exact ⟨lead, negative, sign, digits, tail, by simp, ⟨blank, ending⟩, isSign, isDigits, rfl⟩

variable {text : String} {value : Float}

theorem integerOfText_eq_ok_iff {number : Int} :
    integerOfText text = .ok number ↔
      ∃ exact, IsIntegral text.toList exact ∧ number = Rounding.saturate 32 exact := by
  rw [integerOfText, Reader.whole_integer_eq_ok_iff]
  simp only [isIntegral_iff]
  constructor
  · rintro ⟨numeral, isQuantity, isInteger, rfl⟩
    exact ⟨numeral.toInt, ⟨numeral, isQuantity, isInteger, rfl⟩, rfl⟩
  · rintro ⟨_, ⟨numeral, isQuantity, isInteger, rfl⟩, rfl⟩
    exact ⟨numeral, isQuantity, isInteger, rfl⟩

theorem pixelsOfText_eq_ok_iff (plain : '\\' ∉ text.toList) :
    pixelsOfText text = .ok value ↔
      ∃ number unit, IsMeasured LengthUnit.name .pixels text.toList number unit ∧
        value = Length.toPixels ⟨number, unit⟩ :=
  Reader.map_whole_quantity_eq_ok_iff (fun _ _ => LengthUnit.ofName?_eq_some_iff)
    LengthUnit.isUnitName plain

theorem dotsPerInchOfText_eq_ok_iff (plain : '\\' ∉ text.toList) :
    dotsPerInchOfText text = .ok value ↔
      ∃ number unit, IsMeasured ResolutionUnit.name .perInch text.toList number unit ∧
        value = Resolution.toDotsPerInch ⟨number, unit⟩ :=
  Reader.map_whole_quantity_eq_ok_iff (fun _ _ => ResolutionUnit.ofName?_eq_some_iff)
    ResolutionUnit.isUnitName plain

/-- How a decimal is written: a number, or a number over another one. -/
inductive IsDecimal (text : List Char) : Float → Prop
  | number {numeral : Numeral} {value : Float} (isQuantity : IsQuantity text numeral [])
      (isValue : numeral.IsValue value) : IsDecimal text (value / 1)
  | ratio {upper lower : Numeral} {first second : Float} (isRatio : IsRatio text upper lower)
      (isFirst : upper.IsValue first) (isSecond : lower.IsValue second) :
      IsDecimal text (first / second)

theorem decimalOfText_eq_ok_iff :
    decimalOfText text = .ok value ↔ IsDecimal text.toList value := by
  rw [decimalOfText, map_eq_ok_iff]
  simp only [Reader.whole_ratio_eq_ok_iff]
  constructor
  · rintro ⟨_, ⟨numeral, isQuantity, rfl⟩ | ⟨upper, lower, isRatio, rfl⟩, rfl⟩
    · exact .number isQuantity numeral.isValue_toFloat
    · exact .ratio isRatio upper.isValue_toFloat lower.isValue_toFloat
  · rintro (⟨isQuantity, isValue⟩ | ⟨isRatio, isFirst, isSecond⟩)
    · rw [Numeral.isValue_iff.mp isValue]
      exact ⟨_, Or.inl ⟨_, isQuantity, rfl⟩, rfl⟩
    · rw [Numeral.isValue_iff.mp isFirst, Numeral.isValue_iff.mp isSecond]
      exact ⟨_, Or.inr ⟨_, _, isRatio, rfl⟩, rfl⟩

/--
A text without escapes is a quantity exactly if it is written as one, and the value is that of the
numerals and the unit that are written: the numbers nearest to what the numerals write, a quotient
of two of them, or an integer. Each other text is refused.
-/
theorem quantityOfText_eq_ok_iff (text : String) (plain : '\\' ∉ text.toList) :
    (∀ number, integerOfText text = .ok number ↔
      ∃ exact, IsIntegral text.toList exact ∧ number = Rounding.saturate 32 exact) ∧
    (∀ value, pixelsOfText text = .ok value ↔
      ∃ number unit, IsMeasured LengthUnit.name .pixels text.toList number unit ∧
        value = Length.toPixels ⟨number, unit⟩) ∧
    (∀ value, dotsPerInchOfText text = .ok value ↔
      ∃ number unit, IsMeasured ResolutionUnit.name .perInch text.toList number unit ∧
        value = Resolution.toDotsPerInch ⟨number, unit⟩) ∧
    ∀ value, decimalOfText text = .ok value ↔ IsDecimal text.toList value :=
  ⟨fun _ => integerOfText_eq_ok_iff, fun _ => pixelsOfText_eq_ok_iff plain,
    fun _ => dotsPerInchOfText_eq_ok_iff plain, fun _ => decimalOfText_eq_ok_iff⟩

/-- An exponent, a unit that starts like one, and a comment that nothing ends. -/
theorem quantityOfText_eq_ok_iff_ems :
    '\\' ∉ " +1e1eM/*".toList ∧ pixelsOfText " +1e1eM/*" = .ok 160 := by
  have plain : '\\' ∉ " +1e1eM/*".toList := by decide
  have one : Numeral.IsDigits ['1'] := by
    refine ⟨by decide, fun digit member => ?_⟩
    rw [List.mem_singleton.mp member]
    rfl
  have spells : Numeral.Spells ['+', '1', 'e', '1'] ⟨false, [1], [], some 1⟩ :=
    .parts .plus (.whole one) (@Numeral.IsExponent.present 'e' false [] _ (Or.inl rfl) .absent one)
  have isValue : Numeral.IsValue ⟨false, [1], [], some 1⟩ 10 :=
    Numeral.isValue_iff.mpr (by decide +kernel)
  have pixels : Length.toPixels ⟨10, .ems⟩ = 160 := by decide +kernel
  refine ⟨plain, ((quantityOfText_eq_ok_iff " +1e1eM/*" plain).2.1 _).mpr
    ⟨10, .ems, ?_, pixels.symm⟩⟩
  exact ⟨_, ['e', 'M'], ⟨[' '], ['+', '1', 'e', '1'], ['/', '*'], by decide,
    .space (by decide) .nil, spells, .unclosed .nil (by decide)⟩, Or.inl (by decide), isValue⟩

end MediaQuery
