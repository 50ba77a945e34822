import MediaQuery.Proofs.Quantity.Case

/-!
# Quantities between spaces and comments

A reader passes over spaces and comments, so what a whole text is read as is settled by its
other lexemes, the solid ones. Those of a quantity are numbers, with or without a unit, and
slashes between them.
-/

namespace MediaQuery

/-- Whether a token can be part of a quantity. -/
def Token.isNumeric : Token → Bool
  | .number _ => true
  | .dimension _ _ => true
  | .delimiter character => character == '/'
  | _ => false

theorem Token.opens_of_isNumeric {token : Token} (numeric : token.isNumeric = true) :
    token.opens = none := by
  cases token <;> simp_all [isNumeric, opens]

namespace Lexeme

/-- The lexemes that do not only separate others. -/
def solid (lexemes : List Lexeme) : List Lexeme :=
  lexemes.filter fun lexeme => !lexeme.isBlank

theorem solid_append (front back : List Lexeme) :
    solid (front ++ back) = solid front ++ solid back :=
  List.filter_append front back

theorem solid_cons_of_isBlank {lexeme : Lexeme} (blank : lexeme.isBlank = true)
    (rest : List Lexeme) : solid (lexeme :: rest) = solid rest := by
  simp [solid, blank]

theorem solid_of_isBlank {lexemes : List Lexeme}
    (blank : ∀ lexeme ∈ lexemes, lexeme.isBlank = true) : solid lexemes = [] := by
  simpa [solid] using blank

theorem solid_skipBlank (lexemes : List Lexeme) : solid (skipBlank lexemes) = solid lexemes := by
  induction lexemes with
  | nil => rfl
  | cons lexeme rest ih =>
      by_cases blank : lexeme.isBlank = true
      · rw [solid_cons_of_isBlank blank, ← ih]
        simp [skipBlank, blank]
      · simp [skipBlank, blank]

theorem solid_of_skipBlank_eq_cons {lexemes rest : List Lexeme} {lexeme : Lexeme}
    (ahead : skipBlank lexemes = lexeme :: rest) : solid lexemes = lexeme :: solid rest := by
  have front : lexeme.isBlank = false := by
    have front := List.head?_dropWhile_not isBlank lexemes
    rw [show lexemes.dropWhile isBlank = lexeme :: rest from ahead] at front
    exact front
  rw [← solid_skipBlank, ahead]
  simp [solid, front]

end Lexeme

open Lexeme (solid)

namespace Cursor

variable (cursor : Cursor)

theorem settle_rest_of_opened (passed : cursor.opened = none) :
    cursor.settle.rest = Lexeme.skipBlank cursor.rest := by
  simp [settle, pastBlock, passed]

theorem exhausted_iff (passed : cursor.opened = none) :
    cursor.exhausted = true ↔ solid cursor.rest = [] := by
  unfold exhausted
  rw [settle_rest_of_opened cursor passed]
  rcases ahead : Lexeme.skipBlank cursor.rest with _ | ⟨lexeme, rest⟩
  · rw [← Lexeme.solid_skipBlank, ahead]
    simp [solid]
  · rw [Lexeme.solid_of_skipBlank_eq_cons ahead]
    simp

/-- The next token of a cursor is that of the first solid lexeme ahead. -/
theorem next_cases (passed : cursor.opened = none) :
    (solid cursor.rest = [] ∧ cursor.next = (none, cursor.settle)) ∨
      ∃ lexeme rest, solid cursor.rest = lexeme :: solid rest ∧
        cursor.next = (some lexeme, { cursor with opened := lexeme.token.opens, rest }) := by
  unfold next
  rw [settle_rest_of_opened cursor passed]
  rcases ahead : Lexeme.skipBlank cursor.rest with _ | ⟨lexeme, rest⟩
  · left
    rw [← Lexeme.solid_skipBlank, ahead]
    exact ⟨rfl, rfl⟩
  · exact Or.inr ⟨lexeme, rest, Lexeme.solid_of_skipBlank_eq_cons ahead, rfl⟩

end Cursor

theorem toOption_eq_some_iff {Value : Type} {read : Except ReadError Value} {value : Value} :
    read.toOption = some value ↔ read = .ok value := by
  cases read <;> simp [Except.toOption]

theorem toOption_map {Value Image : Type} (read : Except ReadError Value) (image : Value → Image) :
    (read.map image).toOption = read.toOption.map image := by
  cases read <;> rfl

namespace Reader

variable {Value : Type}

/-- Whether what a whole text is read as is settled by its solid lexemes, all of them numeric. -/
def ReadsSolid (read : Reader Value) : Prop :=
  ∃ valueOf : List Lexeme → Option Value,
    (∀ lexemes value, valueOf lexemes = some value →
      ∀ lexeme ∈ lexemes, lexeme.token.isNumeric = true) ∧
    ∀ text, (whole read text).toOption = valueOf (solid (Lexeme.ofText text.toList))

/-- The value that a reader takes from the only lexeme of a list. -/
def valueOfOnly (read : Lexeme → Except ReadError Value) : List Lexeme → Option Value
  | [lexeme] => (read lexeme).toOption
  | _ => none

/-- A reader of one token takes the value of a text from its only solid lexeme. -/
theorem toOption_whole_ofToken {read : Lexeme → Except ReadError Value}
    (numeric : ∀ lexeme value, read lexeme = .ok value → lexeme.token.isNumeric = true)
    (text : String) :
    (whole (ofToken read) text).toOption =
      valueOfOnly read (solid (Lexeme.ofText text.toList)) := by
  rw [whole_eq, ofToken]
  have start : (Cursor.start text).rest = Lexeme.ofText text.toList := rfl
  rcases Cursor.next_cases (Cursor.start text) rfl with
    ⟨nothing, next⟩ | ⟨lexeme, rest, solids, next⟩
  · rw [← start, nothing, next]
    rfl
  · rw [← start, solids, next]
    cases taken : read lexeme with
    | error error =>
        rcases solid rest with _ | ⟨second, others⟩ <;>
          simp [valueOfOnly, taken, Except.bind, Except.toOption]
    | ok value =>
        have passed := Token.opens_of_isNumeric (numeric lexeme value taken)
        have exhausted := Cursor.exhausted_iff
          ⟨(Cursor.start text).size, lexeme.token.opens, rest⟩ passed
        by_cases ended : solid rest = []
        · simp [valueOfOnly, taken, ended, Except.bind, exhausted.mpr ended]
        · have goesOn := mt exhausted.mp ended
          rcases List.exists_cons_of_ne_nil ended with ⟨second, others, same⟩
          simp [valueOfOnly, taken, same, Except.bind, goesOn, Except.toOption]

theorem readsSolid_ofToken {read : Lexeme → Except ReadError Value}
    (numeric : ∀ lexeme value, read lexeme = .ok value → lexeme.token.isNumeric = true) :
    ReadsSolid (ofToken read) := by
  refine ⟨valueOfOnly read, ?_, toOption_whole_ofToken numeric⟩
  intro lexemes value found lexeme member
  match lexemes with
  | [only] =>
      rw [List.mem_singleton.mp member]
      cases taken : read only with
      | error error => simp [valueOfOnly, taken, Except.toOption] at found
      | ok value => exact numeric only value taken

theorem readsSolid_integer : ReadsSolid integer := by
  apply readsSolid_ofToken
  rintro ⟨token, text⟩ value taken
  cases token <;> first | rfl | cases taken

theorem readsSolid_quantity {Kind : Type} (implied : Kind) (unitOf : List Char → Option Kind) :
    ReadsSolid (quantity implied unitOf) := by
  apply readsSolid_ofToken
  rintro ⟨token, text⟩ value taken
  cases token <;> first | rfl | cases taken

theorem whole_map (read : Reader Value) {Image : Type} (image : Value → Image) (text : String) :
    whole (fun cursor => ((read cursor).1.map image, (read cursor).2)) text =
      (whole read text).map image := by
  rw [whole_eq, whole_eq]
  rcases read (Cursor.start text) with ⟨error | value, after⟩
  · rfl
  · cases exhausted : after.exhausted <;> simp [Except.map, Except.bind]

theorem ReadsSolid.map {read : Reader Value} (reads : ReadsSolid read) {Image : Type}
    (image : Value → Image) :
    ReadsSolid fun cursor => ((read cursor).1.map image, (read cursor).2) := by
  rcases reads with ⟨valueOf, numeric, settled⟩
  refine ⟨fun lexemes => (valueOf lexemes).map image, ?_, ?_⟩
  · intro lexemes value found
    rcases Option.map_eq_some_iff.mp found with ⟨original, taken, _⟩
    exact numeric lexemes original taken
  · intro text
    rw [whole_map, toOption_map, settled text]

theorem readsSolid_length : ReadsSolid length :=
  (readsSolid_quantity _ _).map fun measured => (⟨measured.1, measured.2⟩ : Length)

theorem readsSolid_resolution : ReadsSolid resolution :=
  (readsSolid_quantity _ _).map fun measured => (⟨measured.1, measured.2⟩ : Resolution)

/-- The number that a lexeme is. -/
def numberOf? (lexeme : Lexeme) : Option Float :=
  match lexeme.token with
  | .number numeral => some numeral.toFloat
  | _ => none

theorem isNumeric_of_numberOf? {lexeme : Lexeme} {value : Float}
    (found : numberOf? lexeme = some value) : lexeme.token.isNumeric = true := by
  rcases lexeme with ⟨token, text⟩
  cases token <;> first | rfl | cases found

variable (cursor : Cursor)

theorem number_cases (passed : cursor.opened = none) :
    (∃ lexeme rest value, solid cursor.rest = lexeme :: solid rest ∧
        numberOf? lexeme = some value ∧
        number cursor = (.ok value, { cursor with opened := none, rest })) ∨
      (∀ lexeme ∈ (solid cursor.rest).head?, numberOf? lexeme = none) ∧
        ∃ error after, number cursor = (.error error, after) := by
  unfold number ofToken
  rcases Cursor.next_cases cursor passed with ⟨nothing, next⟩ | ⟨⟨token, text⟩, rest, solids, next⟩
  · rw [next, nothing]
    exact Or.inr ⟨by simp, _, _, rfl⟩
  · rw [next, solids]
    cases token with
    | number numeral => exact Or.inl ⟨_, rest, numeral.toFloat, rfl, rfl, rfl⟩
    | _ => exact Or.inr ⟨by simp [numberOf?], _, _, rfl⟩

theorem denominator_cases (passed : cursor.opened = none) :
    (∃ slash lexeme rest value, solid cursor.rest = slash :: lexeme :: solid rest ∧
        slash.token = .delimiter '/' ∧ numberOf? lexeme = some value ∧
        denominator cursor = (.ok value, { cursor with opened := none, rest })) ∨
      (∀ slash lexeme others, solid cursor.rest = slash :: lexeme :: others →
          slash.token = .delimiter '/' → numberOf? lexeme = none) ∧
        ∃ error after, denominator cursor = (.error error, after) := by
  unfold denominator
  rcases Cursor.next_cases cursor passed with ⟨nothing, next⟩ | ⟨slash, rest, solids, next⟩
  · rw [next, nothing]
    exact Or.inr ⟨by simp, _, _, rfl⟩
  · rw [next, solids]
    by_cases isSlash : slash.token = .delimiter '/'
    · simp only [isSlash, Token.opens]
      rcases number_cases { cursor with opened := none, rest } rfl with
        ⟨lexeme, behind, value, solids, found, taken⟩ | ⟨noNumber, error, after, failed⟩
      · exact Or.inl ⟨slash, lexeme, behind, value, by rw [← solids], isSlash, found, taken⟩
      · right
        refine ⟨?_, error, after, failed⟩
        intro other lexeme others same _
        rw [List.cons.injEq] at same
        exact noNumber lexeme (by simp [same.2])
    · right
      simp only [if_neg isSlash]
      refine ⟨?_, _, _, rfl⟩
      intro other lexeme others same otherSlash
      rw [List.cons.injEq] at same
      exact absurd (same.1 ▸ otherSlash) isSlash

/-- The ratio that solid lexemes are: a number, or two numbers and a slash between them. -/
def ratioOf? : List Lexeme → Option Ratio
  | [numerator] => (numberOf? numerator).map fun value => ⟨value, 1⟩
  | [numerator, slash, denominator] =>
      if slash.token = .delimiter '/' then
        (numberOf? numerator).bind fun upper =>
          (numberOf? denominator).map fun lower => ⟨upper, lower⟩
      else
        none
  | _ => none

theorem isNumeric_of_ratioOf? {lexemes : List Lexeme} {value : Ratio}
    (found : ratioOf? lexemes = some value) :
    ∀ lexeme ∈ lexemes, lexeme.token.isNumeric = true := by
  unfold ratioOf? at found
  split at found
  · rcases Option.map_eq_some_iff.mp found with ⟨upper, isNumber, _⟩
    simpa using isNumeric_of_numberOf? isNumber
  · rename_i numerator slash denominator
    split at found
    · rename_i isSlash
      rcases Option.bind_eq_some_iff.mp found with ⟨upper, isNumber, rest⟩
      rcases Option.map_eq_some_iff.mp rest with ⟨lower, isOther, _⟩
      have slashNumeric : slash.token.isNumeric = true := by
        rw [isSlash]
        rfl
      simpa using ⟨isNumeric_of_numberOf? isNumber, slashNumeric, isNumeric_of_numberOf? isOther⟩
    · cases found
  · cases found

/-- A ratio takes the value of a text from its one or three solid lexemes. -/
theorem toOption_whole_ratio (text : String) :
    (whole ratio text).toOption = ratioOf? (solid (Lexeme.ofText text.toList)) := by
  have start : (Cursor.start text).rest = Lexeme.ofText text.toList := rfl
  rw [whole_eq, ratio, ← start]
  rcases number_cases (Cursor.start text) rfl with
    ⟨numerator, rest, upper, solids, isNumber, taken⟩ | ⟨noNumber, error, after, failed⟩
  · have exhausted := Cursor.exhausted_iff
      { Cursor.start text with opened := none, rest } rfl
    rw [taken, solids]
    rcases denominator_cases { Cursor.start text with opened := none, rest } rfl with
      ⟨slash, denominator, behind, lower, others, isSlash, isOther, takenToo⟩ |
        ⟨noRatio, error, after, failed⟩
    · have exhaustedToo := Cursor.exhausted_iff
        { Cursor.start text with opened := none, rest := behind } rfl
      have others : solid rest = slash :: denominator :: solid behind := others
      simp only [takenToo, others]
      by_cases ended : solid behind = []
      · simp [ended, exhaustedToo.mpr ended, Except.bind, Except.toOption, ratioOf?, isNumber,
          isSlash, isOther]
      · rcases List.exists_cons_of_ne_nil ended with ⟨fourth, more, same⟩
        simp [mt exhaustedToo.mp ended, same, Except.bind, Except.toOption, ratioOf?]
    · simp only [failed]
      by_cases ended : solid rest = []
      · simp [ended, exhausted.mpr ended, Except.bind, Except.toOption, ratioOf?, isNumber]
      · have trailing : ratioOf? (numerator :: solid rest) = none := by
          match others : solid rest with
          | [] => exact absurd others ended
          | [slash] => rfl
          | [slash, denominator] =>
              have noNumber := noRatio slash denominator [] others
              by_cases isSlash : slash.token = .delimiter '/'
              · simp [ratioOf?, isSlash, noNumber isSlash]
              · simp [ratioOf?, isSlash]
          | _ :: _ :: _ :: _ => rfl
        simp [mt exhausted.mp ended, trailing, Except.bind, Except.toOption]
  · rw [failed]
    symm
    change ratioOf? (solid (Cursor.start text).rest) = none
    match solids : solid (Cursor.start text).rest with
    | [] => rfl
    | [numerator] => simp [ratioOf?, noNumber numerator (by simp [solids])]
    | [_, _] => rfl
    | [numerator, slash, denominator] =>
        simp [ratioOf?, noNumber numerator (by simp [solids])]
    | _ :: _ :: _ :: _ :: _ => rfl

theorem readsSolid_ratio : ReadsSolid ratio :=
  ⟨ratioOf?, fun _ _ found => isNumeric_of_ratioOf? found, toOption_whole_ratio⟩

/-- Texts with the same solid lexemes are read as the same, as are texts that are no quantity. -/
def Alike (text other : List Char) : Prop :=
  solid (Lexeme.ofText text) = solid (Lexeme.ofText other) ∨
    (∃ lexeme ∈ solid (Lexeme.ofText text), lexeme.token.isNumeric = false) ∧
      ∃ lexeme ∈ solid (Lexeme.ofText other), lexeme.token.isNumeric = false

theorem ReadsSolid.whole_congr {read : Reader Value} (reads : ReadsSolid read)
    {text other : String} (alike : Alike text.toList other.toList) :
    (whole read text).toOption = (whole read other).toOption := by
  rcases reads with ⟨valueOf, numeric, settled⟩
  have nothing : ∀ lexemes, (∃ lexeme ∈ lexemes, lexeme.token.isNumeric = false) →
      valueOf lexemes = none := by
    rintro lexemes ⟨lexeme, member, other⟩
    by_contra found
    rcases Option.ne_none_iff_exists'.mp found with ⟨value, taken⟩
    rw [numeric lexemes value taken lexeme member] at other
    exact absurd other (by decide)
  rw [settled, settled]
  rcases alike with same | ⟨first, second⟩
  · rw [same]
  · rw [nothing _ first, nothing _ second]

end Reader

open Reader (Alike)

variable {text other : String}

theorem pixelsOfText_congr (alike : Alike text.toList other.toList) :
    (pixelsOfText text).toOption = (pixelsOfText other).toOption := by
  rw [pixelsOfText, pixelsOfText, toOption_map, toOption_map,
    Reader.readsSolid_length.whole_congr alike]

theorem dotsPerInchOfText_congr (alike : Alike text.toList other.toList) :
    (dotsPerInchOfText text).toOption = (dotsPerInchOfText other).toOption := by
  rw [dotsPerInchOfText, dotsPerInchOfText, toOption_map, toOption_map,
    Reader.readsSolid_resolution.whole_congr alike]

theorem decimalOfText_congr (alike : Alike text.toList other.toList) :
    (decimalOfText text).toOption = (decimalOfText other).toOption := by
  rw [decimalOfText, decimalOfText, toOption_map, toOption_map,
    Reader.readsSolid_ratio.whole_congr alike]

theorem integerOfText_congr (alike : Alike text.toList other.toList) :
    (integerOfText text).toOption = (integerOfText other).toOption :=
  Reader.readsSolid_integer.whole_congr alike

end MediaQuery
