import Mathlib.Data.List.TakeWhile
import MediaQuery.Proofs.Lexeme.Length

/-!
# Where a lexeme ends

A lexeme is read with all that follows it in view, so a text may change the
lexemes in front of it: `1` and `em` are two lexemes apart and one together. Here
are the texts that cannot do so. Whatever of them follows, a name, a number or a
mark ends where it ended, and so does a string, a comment or an address that is
closed.
-/

namespace MediaQuery

namespace Character

/-- A character that can go on with a name, a number or a mark in front of it. -/
def isJoining (character : Char) : Bool :=
  isNamePart character || character == '\\' || character == '%' || character == '.' ||
    character == '+' || character == '(' || character == '=' || character == '*' ||
    character == '!' || character == '>'

theorem ne_of_stops {character mark : Char} (stops : isJoining character = false)
    (joining : isJoining mark = true) : character ≠ mark := by
  rintro rfl
  rw [joining] at stops
  exact absurd stops (by decide)

theorem isNamePart_of_stops {character : Char} (stops : isJoining character = false) :
    isNamePart character = false := by
  simp only [isJoining, Bool.or_eq_false_iff] at stops
  exact stops.1.1.1.1.1.1.1.1.1

theorem isNameStart_of_stops {character : Char} (stops : isJoining character = false) :
    isNameStart character = false := by
  have noPart := isNamePart_of_stops stops
  simp only [isNamePart, Bool.or_eq_false_iff] at noPart
  exact noPart.1.1

theorem isDigit_of_stops {character : Char} (stops : isJoining character = false) :
    character.isDigit = false := by
  have noPart := isNamePart_of_stops stops
  simp only [isNamePart, Bool.or_eq_false_iff] at noPart
  exact noPart.1.2

end Character

namespace Text

/-- A text that does not go on with a name, a number or a mark in front of it. -/
def Stops (after : List Char) : Prop :=
  ∀ character ∈ after.head?, Character.isJoining character = false

theorem stops_nil : Stops [] := by
  simp [Stops]

theorem stops_cons {first : Char} {rest : List Char} :
    Stops (first :: rest) ↔ Character.isJoining first = false := by
  simp [Stops]

/-- A joining character in front of a text that stops is no part of it. -/
theorem Stops.append_eq_cons {text after rest : List Char} {first : Char} (stops : Stops after)
    (same : text ++ after = first :: rest) (joining : Character.isJoining first = true) :
    ∃ tail, text = first :: tail ∧ tail ++ after = rest := by
  match text with
  | [] =>
      rw [List.nil_append] at same
      subst same
      rw [stops_cons, joining] at stops
      exact absurd stops (by decide)
  | next :: tail =>
      simp only [List.cons_append, List.cons.injEq] at same
      exact ⟨tail, by rw [same.1], same.2⟩

theorem Stops.head?_append {text after : List Char} {mark : Char} (stops : Stops after)
    (joining : Character.isJoining mark = true) :
    (text ++ after).head? = some mark ↔ text.head? = some mark := by
  rw [List.head?_append]
  rcases text with _ | ⟨first, rest⟩
  · constructor
    · intro front
      exact absurd rfl (Character.ne_of_stops (stops mark front) joining)
    · intro front
      simp at front
  · simp

/-- A run of characters ends at a text that starts with no such character. -/
theorem takeWhile_append {text after : List Char} {belongs : Char → Bool}
    (stop : ∀ character ∈ after.head?, belongs character = false) :
    (text ++ after).takeWhile belongs = text.takeWhile belongs := by
  have nothing : after.takeWhile belongs = [] := by
    cases after with
    | nil => rfl
    | cons first rest => simp [stop first (by simp)]
  rw [List.takeWhile_append]
  split
  · rename_i whole
    have all : text.takeWhile belongs = text :=
      (List.takeWhile_prefix belongs).eq_of_length whole
    rw [nothing, all, List.append_nil]
  · rfl

theorem takeWhile_append_of_mem {text : List Char} {character : Char} {belongs : Char → Bool}
    (member : character ∈ text) (ends : belongs character = false) (after : List Char) :
    (text ++ after).takeWhile belongs = text.takeWhile belongs := by
  rw [List.takeWhile_append]
  split
  · rename_i whole
    have all : text.takeWhile belongs = text :=
      (List.takeWhile_prefix belongs).eq_of_length whole
    rw [← all] at member
    rw [List.mem_takeWhile_imp member] at ends
    simp at ends
  · rfl

theorem Stops.takeWhile_isDigit {text after : List Char} (stops : Stops after) :
    (text ++ after).takeWhile Char.isDigit = text.takeWhile Char.isDigit := by
  apply takeWhile_append
  intro character front
  exact Character.isDigit_of_stops (stops character front)

end Text

namespace Name

open Text (Stops)

theorem starts_append {text after : List Char} (plain : '\\' ∉ text) (stops : Stops after) :
    starts (text ++ after) = starts text := by
  match text with
  | [] =>
      match after with
      | [] => rfl
      | first :: rest =>
          have stop := Text.stops_cons.mp stops
          have other := fun mark => @Character.ne_of_stops first mark stop
          simp [starts, other '-' (by decide), other '\\' (by decide),
            Character.isNameStart_of_stops stop]
  | [first] =>
      by_cases hyphen : first = '-'
      · subst hyphen
        match after with
        | [] => rfl
        | next :: rest =>
            have stop := Text.stops_cons.mp stops
            have other := fun mark => @Character.ne_of_stops next mark stop
            have hyphenStart : Character.isNameStart '-' = false := by decide
            simp [starts, other '-' (by decide), other '\\' (by decide),
              Character.isNameStart_of_stops stop, hyphenStart]
      · have noBackslash : first ≠ '\\' := by
          rintro rfl
          simp at plain
        simp [starts, hyphen]
  | first :: next :: rest =>
      have noBackslash : first ≠ '\\' ∧ next ≠ '\\' := by
        constructor <;>
          · rintro rfl
            simp at plain
      by_cases hyphen : first = '-'
      · subst hyphen
        simp [starts, noBackslash.2]
      · simp [starts, hyphen, noBackslash.1]

/-- Without escapes, the name at the front of a text is a run of name characters. -/
theorem scan_eq_of_plain {text : List Char} (plain : '\\' ∉ text) :
    scan text =
      ((text.takeWhile Character.isNamePart).map Character.shown,
        (text.takeWhile Character.isNamePart).length) := by
  unfold scan
  induction text with
  | nil => rfl
  | cons first rest ih =>
      by_cases part : Character.isNamePart first = true
      · rw [scanFrom_part part, ih (List.not_mem_of_not_mem_cons plain)]
        simp [part]
      · have noPart : Character.isNamePart first = false := by simpa using part
        have noBackslash := (List.ne_of_not_mem_cons plain).symm
        rw [scanFrom_stop noPart (by simp [noBackslash])]
        simp [part]

/-- A name without escapes ends at a text that goes on with none, escaped or not. -/
theorem scan_append {text after : List Char} (plain : '\\' ∉ text) (stops : Stops after) :
    scan (text ++ after) = scan text := by
  unfold scan
  induction text with
  | nil =>
      match after with
      | [] => rfl
      | first :: rest =>
          have stop := Text.stops_cons.mp stops
          have noBackslash : first ≠ '\\' := Character.ne_of_stops stop (by decide)
          have noEscape : (first == '\\' && continuesEscape rest) = false := by
            simp [noBackslash]
          simpa [scanFrom] using scanFrom_stop (Character.isNamePart_of_stops stop) noEscape
  | cons first rest ih =>
      have noBackslash := (List.ne_of_not_mem_cons plain).symm
      have plainRest := List.not_mem_of_not_mem_cons plain
      by_cases part : Character.isNamePart first = true
      · rw [List.cons_append, scanFrom_part part, scanFrom_part part, ih plainRest]
      · have noPart : Character.isNamePart first = false := by simpa using part
        rw [List.cons_append, scanFrom_stop noPart (by simp [noBackslash]),
          scanFrom_stop noPart (by simp [noBackslash])]

end Name

namespace Numeral

open Text (Stops)

theorem signLength_append {text after : List Char} (stops : Stops after) :
    signLength (text ++ after) = signLength text := by
  match text with
  | first :: rest => simp only [List.cons_append, signLength_cons]
  | [] =>
      match after with
      | [] => rfl
      | first :: rest =>
          have other := fun mark => @Character.ne_of_stops first mark (Text.stops_cons.mp stops)
          simp [signLength, other '-' (by decide), other '+' (by decide)]

theorem startsNegative_append {text after : List Char} (stops : Stops after) :
    startsNegative (text ++ after) = startsNegative text := by
  match text with
  | first :: rest => simp only [List.cons_append, startsNegative_cons]
  | [] =>
      match after with
      | [] => rfl
      | first :: rest =>
          have other := fun mark => @Character.ne_of_stops first mark (Text.stops_cons.mp stops)
          simp [startsNegative, other '-' (by decide)]

theorem startsUnsigned_append {text after : List Char} (stops : Stops after) :
    startsUnsigned (text ++ after) = startsUnsigned text := by
  match text with
  | [] =>
      match after with
      | [] => rfl
      | first :: rest =>
          have stop := Text.stops_cons.mp stops
          have noPoint : first ≠ '.' := Character.ne_of_stops stop (by decide)
          simp [startsUnsigned, noPoint, Character.isDigit_of_stops stop]
  | [first] =>
      have nothing : (after.head?.map Char.isDigit).getD false = false := by
        match after with
        | [] => rfl
        | next :: rest =>
            simpa using Character.isDigit_of_stops (Text.stops_cons.mp stops)
      simp [startsUnsigned_cons, nothing]
  | first :: next :: rest => simp [startsUnsigned_cons]

theorem starts_append {text after : List Char} (stops : Stops after) :
    starts (text ++ after) = starts text := by
  unfold starts
  rw [signLength_append stops, List.drop_append_of_le_length (signLength_le text),
    startsUnsigned_append stops]

theorem wholeDigits_append {text after : List Char} (stops : Stops after) :
    wholeDigits (text ++ after) = wholeDigits text := by
  unfold wholeDigits
  rw [signLength_append stops, List.drop_append_of_le_length (signLength_le text),
    stops.takeWhile_isDigit]

theorem signLength_add_length_wholeDigits_le (text : List Char) :
    signLength text + (wholeDigits text).length ≤ text.length := by
  have sign := signLength_le text
  have whole := (List.takeWhile_sublist (l := text.drop (signLength text)) Char.isDigit).length_le
  rw [List.length_drop] at whole
  unfold wholeDigits
  omega

theorem afterWhole_append {text after : List Char} (stops : Stops after) :
    afterWhole (text ++ after) = afterWhole text ++ after := by
  unfold afterWhole
  rw [signLength_append stops, wholeDigits_append stops,
    List.drop_append_of_le_length (signLength_add_length_wholeDigits_le text)]

theorem fractionDigits_append {text after : List Char} (stops : Stops after) :
    fractionDigits (text ++ after) = fractionDigits text := by
  match text with
  | [] =>
      match after with
      | [] => rfl
      | first :: rest =>
          have noPoint : first ≠ '.' :=
            Character.ne_of_stops (Text.stops_cons.mp stops) (by decide)
          simp [fractionDigits, noPoint]
  | first :: rest =>
      by_cases point : first = '.'
      · subst point
        exact stops.takeWhile_isDigit
      · simp [fractionDigits, point]

theorem fractionLength_append {text after : List Char} (stops : Stops after) :
    fractionLength (text ++ after) = fractionLength text := by
  unfold fractionLength
  rw [fractionDigits_append stops]

theorem afterFraction_append {text after : List Char} (stops : Stops after) :
    afterFraction (text ++ after) = afterFraction text ++ after := by
  unfold afterFraction
  rw [afterWhole_append stops, fractionLength_append stops,
    List.drop_append_of_le_length (fractionLength_le (afterWhole text))]

theorem scanExponent_append {text after : List Char} (stops : Stops after) :
    scanExponent (text ++ after) = scanExponent text := by
  match text with
  | [] =>
      match after with
      | [] => rfl
      | first :: rest =>
          have other := fun mark => @Character.ne_of_stops first mark (Text.stops_cons.mp stops)
          simp [scanExponent, other 'e' (by decide), other 'E' (by decide)]
  | marker :: rest =>
      simp only [List.cons_append, scanExponent]
      rw [signLength_append stops, startsNegative_append stops,
        List.drop_append_of_le_length (signLength_le rest), stops.takeWhile_isDigit]

theorem scan_append {text after : List Char} (stops : Stops after) :
    scan (text ++ after) = scan text := by
  rw [scan_eq, scan_eq, startsNegative_append stops, signLength_append stops,
    wholeDigits_append stops, afterWhole_append stops, fractionDigits_append stops,
    fractionLength_append stops, afterFraction_append stops, scanExponent_append stops]

end Numeral

namespace Token

open Text (Stops)

/-- Once the quote that ends a string is in sight, nothing behind it counts. -/
theorem scanString_append {quote : Char} {text : List Char} (plain : '\\' ∉ text)
    (ended : quote ∈ text) (after : List Char) :
    scanString quote 0 (text ++ after) = scanString quote 0 text := by
  induction text with
  | nil => simp at ended
  | cons first rest ih =>
      have noBackslash := (List.ne_of_not_mem_cons plain).symm
      have plainRest := List.not_mem_of_not_mem_cons plain
      by_cases atQuote : first = quote
      · simp [scanString, atQuote]
      · have endedRest := List.mem_of_ne_of_mem (Ne.symm atQuote) ended
        simp [scanString, atQuote, noBackslash, ih plainRest endedRest]

/-- Once the sign that ends a comment is in sight, nothing behind it counts. -/
theorem commentLength_append {text : List Char} (ended : ['*', '/'] <:+: text)
    (after : List Char) : commentLength (text ++ after) = commentLength text := by
  fun_induction commentLength text with
  | case1 => simp at ended
  | case2 rest => simp [commentLength]
  | case3 first rest notEnd ih =>
      have endedRest : ['*', '/'] <:+: rest := by
        rcases List.infix_cons_iff.mp ended with front | later
        · rcases front with ⟨tail, same⟩
          simp only [List.cons_append, List.nil_append, List.cons.injEq] at same
          exact absurd same.2.symm (notEnd tail same.1.symm)
        · exact later
      have notEnd' : ∀ tail, first = '*' → rest ++ after = '/' :: tail → False := by
        intro tail star slash
        match rest with
        | [] => simp at endedRest
        | next :: rest =>
            simp only [List.cons_append, List.cons.injEq] at slash
            exact notEnd rest star (by rw [slash.1])
      rw [List.cons_append, commentLength.eq_3 first (rest ++ after) notEnd', ih endedRest]

theorem brokenUrlLength_append {text : List Char} (plain : '\\' ∉ text) (ended : ')' ∈ text)
    (after : List Char) : brokenUrlLength (text ++ after) = brokenUrlLength text := by
  induction text with
  | nil => simp at ended
  | cons first rest ih =>
      have noBackslash := (List.ne_of_not_mem_cons plain).symm
      have plainRest := List.not_mem_of_not_mem_cons plain
      by_cases close : first = ')'
      · simp [brokenUrlLength, close]
      · have endedRest := List.mem_of_ne_of_mem (Ne.symm close) ended
        simp [brokenUrlLength, noBackslash, ih plainRest endedRest]

theorem scanUrlEnd_append {text : List Char} (plain : '\\' ∉ text) (ended : ')' ∈ text)
    (after : List Char) : scanUrlEnd (text ++ after) = scanUrlEnd text := by
  induction text with
  | nil => simp at ended
  | cons first rest ih =>
      have plainRest := List.not_mem_of_not_mem_cons plain
      by_cases close : first = ')'
      · subst close
        simp [scanUrlEnd, show Character.isSpace ')' = false by decide]
      · have endedRest := List.mem_of_ne_of_mem (Ne.symm close) ended
        simp [scanUrlEnd, close, ih plainRest endedRest,
          brokenUrlLength_append plainRest endedRest]

/-- Once the bracket that ends an address is in sight, nothing behind it counts. -/
theorem scanUrl_append {text : List Char} (plain : '\\' ∉ text) (ended : ')' ∈ text)
    (after : List Char) : scanUrl 0 (text ++ after) = scanUrl 0 text := by
  induction text with
  | nil => simp at ended
  | cons first rest ih =>
      have noBackslash := (List.ne_of_not_mem_cons plain).symm
      have plainRest := List.not_mem_of_not_mem_cons plain
      by_cases close : first = ')'
      · simp [scanUrl, close]
      · have endedRest := List.mem_of_ne_of_mem (Ne.symm close) ended
        simp [scanUrl, close, noBackslash, ih plainRest endedRest,
          brokenUrlLength_append plainRest endedRest, scanUrlEnd_append plainRest endedRest]

/-- A text that no lexeme in front of it can run into. -/
structure Apart (after : List Char) : Prop where
  stops : Stops after
  unquoted : startsQuoted after = false

theorem apart_nil : Apart [] where
  stops := Text.stops_nil
  unquoted := rfl

theorem startsQuoted_append {text after : List Char} (apart : Apart after) :
    startsQuoted (text ++ after) = startsQuoted text := by
  unfold startsQuoted
  rw [List.dropWhile_append]
  rcases text.dropWhile Character.isSpace with _ | ⟨first, rest⟩
  · simpa [startsQuoted] using apart.unquoted
  · simp

theorem startsQuoted_append_of_exists {text : List Char}
    (solid : ∃ character ∈ text, Character.isSpace character = false) (more : List Char) :
    startsQuoted (text ++ more) = startsQuoted text := by
  have remains : text.dropWhile Character.isSpace ≠ [] := by
    intro nothing
    rw [List.dropWhile_eq_nil_iff] at nothing
    rcases solid with ⟨character, member, noSpace⟩
    rw [nothing character member] at noSpace
    exact absurd noSpace (by decide)
  rcases List.exists_cons_of_ne_nil remains with ⟨first, rest, same⟩
  rw [startsQuoted, startsQuoted, List.dropWhile_append, same]
  rfl

/-- What follows the opening bracket of an unquoted address, if a text starts with one. -/
def address? (text : List Char) : Option (List Char) :=
  match text.drop (Name.scan text).2 with
  | '(' :: rest =>
      if Text.lower (Name.scan text).1 = ['u', 'r', 'l'] && !startsQuoted rest then
        some rest
      else
        none
  | _ => none

theorem scanName_eq (text : List Char) :
    scanName text =
      match address? text with
      | some rest =>
          lengthen ((Name.scan text).2 + 1 + (rest.takeWhile Character.isSpace).length)
            (scanUrl 0 (rest.drop (rest.takeWhile Character.isSpace).length))
      | none =>
          if (text.drop (Name.scan text).2).head? = some '(' then
            (.function, (Name.scan text).2 + 1)
          else
            (.ident (Name.scan text).1, (Name.scan text).2) := by
  unfold scanName address?
  rcases ahead : text.drop (Name.scan text).2 with _ | ⟨first, rest⟩
  · simp [ahead]
  · by_cases opened : first = '('
    · subst opened
      simp only [ahead]
      split <;> simp
    · simp [ahead, opened]

theorem address?_append {text after : List Char} (plain : '\\' ∉ text) (apart : Apart after) :
    address? (text ++ after) = (address? text).map (· ++ after) := by
  unfold address?
  rw [Name.scan_append plain apart.stops,
    List.drop_append_of_le_length (Name.scan_length_le text)]
  rcases text.drop (Name.scan text).2 with _ | ⟨first, rest⟩
  · match after, apart with
    | [], _ => rfl
    | next :: tail, apart =>
        have noBracket : next ≠ '(' :=
          Character.ne_of_stops (Text.stops_cons.mp apart.stops) (by decide)
        simp [noBracket]
  · by_cases opened : first = '('
    · subst opened
      simp only [List.cons_append, startsQuoted_append apart]
      split <;> simp
    · simp [opened]

end Token

end MediaQuery
