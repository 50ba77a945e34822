import MediaQuery.Proofs.Lexeme.Boundary

/-!
# Closed lexemes

A string, a comment or an address runs to the end of the text if nothing ends it,
so what follows it may belong to it. One that has its end is as independent of
what follows as a name or a number is. The main statement is that the lexemes of
a text without escapes, all of them closed, are the same in front of every text
that stops.
-/

namespace MediaQuery

open Text (Stops)

namespace Lexeme

/--
Whether a lexeme has its end. A string ends with the quote it starts with, which
one that a newline cuts off does not, and only comments and addresses have an end
of their own besides.
-/
def isClosed (lexeme : Lexeme) : Bool :=
  match lexeme.token with
  | .string => decide (1 < lexeme.text.length) && lexeme.text.getLast? == lexeme.text.head?
  | .brokenString => false
  | .comment => ['*', '/'].isSuffixOf (lexeme.text.drop 2)
  | .url => lexeme.text.getLast? == some ')'
  | .brokenUrl => lexeme.text.getLast? == some ')'
  | _ => true

theorem mem_of_isClosed_string {quote : Char} {rest : List Char} {token : Token}
    (string : token = .string ∨ token = .brokenString)
    (closed : isClosed ⟨token, quote :: rest⟩ = true) : quote ∈ rest := by
  rcases string with rfl | rfl
  · simp only [isClosed, Bool.and_eq_true, decide_eq_true_eq, beq_iff_eq, List.head?_cons] at closed
    have nonempty : rest ≠ [] := by
      rintro rfl
      simp at closed
    rw [List.getLast?_cons_of_ne_nil nonempty] at closed
    exact List.mem_of_getLast? closed.2
  · simp [isClosed] at closed

theorem infix_of_isClosed_comment {text : List Char} (closed : isClosed ⟨.comment, text⟩ = true) :
    ['*', '/'] <:+: text.drop 2 :=
  (List.isSuffixOf_iff_suffix.mp closed).isInfix

theorem mem_of_isClosed_url {text : List Char} {token : Token}
    (url : token = .url ∨ token = .brokenUrl) (closed : isClosed ⟨token, text⟩ = true) :
    ')' ∈ text := by
  rcases url with rfl | rfl <;> exact List.mem_of_getLast? (by simpa [isClosed] using closed)

theorem text_front_append {text after : List Char}
    (inside : (Token.scan (text ++ after)).2 ≤ text.length) :
    (front (text ++ after)).text = text.take (Token.scan (text ++ after)).2 :=
  List.take_append_of_le_length inside

end Lexeme

namespace Token

theorem scanString_token (quote : Char) (skip : Nat) (text : List Char) :
    (scanString quote skip text).1 = .string ∨ (scanString quote skip text).1 = .brokenString := by
  fun_induction scanString quote skip text <;> simp_all

theorem scanUrlEnd_token (text : List Char) :
    (scanUrlEnd text).1 = .url ∨ (scanUrlEnd text).1 = .brokenUrl := by
  fun_induction scanUrlEnd text <;> simp_all

theorem scanUrl_token (skip : Nat) (text : List Char) :
    (scanUrl skip text).1 = .url ∨ (scanUrl skip text).1 = .brokenUrl := by
  fun_induction scanUrl skip text <;> simp_all [scanUrlEnd_token]

theorem drop_of_address {text rest : List Char} (address : address? text = some rest) :
    text.drop (Name.scan text).2 = '(' :: rest := by
  unfold address? at address
  split at address
  · rename_i tail ahead
    split at address
    · rw [ahead, Option.some.inj address]
    · simp at address
  · simp at address

/-- The bracket that ends an address is no part of the name in front of it. -/
theorem mem_address {text rest : List Char} (plain : '\\' ∉ text)
    (address : address? text = some rest) (ended : ')' ∈ text) :
    ')' ∈ rest.drop (rest.takeWhile Character.isSpace).length := by
  have opened := drop_of_address address
  have noName : ')' ∉ text.take (Name.scan text).2 := by
    rw [Name.scan_eq_of_plain plain]
    intro member
    rw [← List.prefix_iff_eq_take.mp (List.takeWhile_prefix Character.isNamePart)] at member
    exact absurd (List.mem_takeWhile_imp member) (by decide)
  have behind : ')' ∈ rest := by
    rw [← List.take_append_drop (Name.scan text).2 text, opened] at ended
    simpa [noName] using ended
  have noSpace : ')' ∉ rest.takeWhile Character.isSpace := by
    intro member
    exact absurd (List.mem_takeWhile_imp member) (by decide)
  have parts := List.takeWhile_append_dropWhile (p := Character.isSpace) (l := rest)
  have dropped := congrArg (List.drop (rest.takeWhile Character.isSpace).length) parts
  rw [List.drop_left] at dropped
  rw [← parts] at behind
  rw [← dropped]
  exact (List.mem_append.mp behind).resolve_left noSpace

/-- An address that has its end, and what is none already, is the same in front of what stops. -/
theorem address?_append_of_ended {text after : List Char} (plain : '\\' ∉ text)
    (stops : Stops after) (ended : address? text = none ∨ ')' ∈ text) :
    address? (text ++ after) = (address? text).map (· ++ after) := by
  have same : ∀ rest, text.drop (Name.scan text).2 = '(' :: rest →
      Text.lower (Name.scan text).1 = ['u', 'r', 'l'] →
        startsQuoted (rest ++ after) = startsQuoted rest := by
    intro rest opened url
    by_cases solid : ∃ character ∈ rest, Character.isSpace character = false
    · exact startsQuoted_append_of_exists solid after
    · have white : ∀ character ∈ rest, Character.isSpace character = true := by simpa using solid
      have unquoted : startsQuoted rest = false := by
        rw [startsQuoted, List.dropWhile_eq_nil_iff.mpr white]
      have address : address? text = some rest := by simp [address?, opened, url, unquoted]
      have close := mem_address plain address (ended.resolve_left (by simp [address]))
      exact absurd (white ')' (List.mem_of_mem_drop close)) (by decide)
  unfold address?
  rw [Name.scan_append plain stops, List.drop_append_of_le_length (Name.scan_length_le text)]
  rcases opened : text.drop (Name.scan text).2 with _ | ⟨first, rest⟩
  · rcases after with _ | ⟨next, tail⟩
    · rfl
    · have noBracket : next ≠ '(' := Character.ne_of_stops (Text.stops_cons.mp stops) (by decide)
      simp [noBracket]
  · by_cases bracket : first = '('
    · subst bracket
      by_cases url : Text.lower (Name.scan text).1 = ['u', 'r', 'l']
      · simp only [List.cons_append, same rest opened url]
        split <;> simp
      · simp [url]
    · simp [bracket]

theorem scanName_append {text after : List Char} (plain : '\\' ∉ text) (stops : Stops after)
    (ended : address? text = none ∨ ')' ∈ text) : scanName (text ++ after) = scanName text := by
  have within := Name.scan_length_le text
  rw [scanName_eq, scanName_eq, address?_append_of_ended plain stops ended,
    Name.scan_append plain stops, List.drop_append_of_le_length within]
  rcases address : address? text with _ | rest
  · have opened : Character.isJoining '(' = true := by decide
    simp only [stops.head?_append opened, Option.map_none]
  · have close := mem_address plain address (ended.resolve_left (by simp [address]))
    have plainRest : '\\' ∉ rest.drop (rest.takeWhile Character.isSpace).length := by
      intro member
      apply plain
      apply List.mem_of_mem_drop (i := (Name.scan text).2)
      rw [drop_of_address address]
      exact List.mem_cons_of_mem _ (List.mem_of_mem_drop member)
    have gap : (rest ++ after).takeWhile Character.isSpace = rest.takeWhile Character.isSpace :=
      Text.takeWhile_append_of_mem (List.mem_of_mem_drop close) (by decide) after
    simp only [Option.map_some, gap]
    rw [List.drop_append_of_le_length (List.takeWhile_prefix _).length_le,
      scanUrl_append plainRest close]

theorem continuesHash_append {text after : List Char} (plain : '\\' ∉ text)
    (stops : Stops after) : continuesHash (text ++ after) = continuesHash text := by
  unfold continuesHash
  rw [Name.starts_append plain stops]
  match text with
  | first :: rest => rfl
  | [] =>
      match after with
      | [] => rfl
      | first :: rest =>
          have stop := Text.stops_cons.mp stops
          have noHyphen : first ≠ '-' := Character.ne_of_stops stop (by decide)
          simp [Character.isDigit_of_stops stop, noHyphen]

/-- What follows does not count for a mark, nor for a comment once its end is in sight. -/
theorem scanMark_append {text after : List Char} (nonempty : text ≠ []) (plain : '\\' ∉ text)
    (stops : Stops after) (ended : ∀ body, text = '/' :: '*' :: body → ['*', '/'] <:+: body) :
    scanMark (text ++ after) = scanMark text := by
  fun_cases scanMark text with
  | case10 body => simp [scanMark, commentLength_append (ended body rfl) after]
  | case17 rest continues =>
      have plainRest := List.not_mem_of_not_mem_cons plain
      simp [scanMark, continuesHash_append plainRest stops, continues,
        Name.scan_append plainRest stops]
  | case18 rest stays =>
      have plainRest := List.not_mem_of_not_mem_cons plain
      simp [scanMark, continuesHash_append plainRest stops, stays]
  | case19 rest starts =>
      have plainRest := List.not_mem_of_not_mem_cons plain
      simp [scanMark, Name.starts_append plainRest stops, starts,
        Name.scan_append plainRest stops]
  | case20 rest stays =>
      have plainRest := List.not_mem_of_not_mem_cons plain
      simp [scanMark, Name.starts_append plainRest stops, stays]
  | case21 first rest _ _ _ _ _ _ _ _ _ comment markup dollar star caret bar tilde _ _ =>
      -- A pair of characters that makes one mark would already be in the text.
      have pair : ∀ {mark sign : Char}, (∀ tail, first = mark → rest = sign :: tail → False) →
          Character.isJoining sign = true →
            ∀ tail, first = mark → rest ++ after = sign :: tail → False := by
        intro mark sign apart joining tail front behind
        rcases stops.append_eq_cons behind joining with ⟨more, whole, _⟩
        exact apart more front whole
      rw [List.cons_append]
      apply scanMark.eq_19 <;> try assumption
      · exact pair comment (by decide)
      · intro tail front behind
        rcases stops.append_eq_cons behind (by decide) with ⟨second, whole, behindMark⟩
        rcases stops.append_eq_cons behindMark (by decide) with ⟨third, rfl, behindHyphen⟩
        rcases stops.append_eq_cons behindHyphen (by decide) with ⟨fourth, rfl, _⟩
        exact markup fourth front whole
      · exact pair dollar (by decide)
      · exact pair star (by decide)
      · exact pair caret (by decide)
      · exact pair bar (by decide)
      · exact pair tilde (by decide)
  | case22 => exact absurd rfl nonempty
  | _ => simp [scanMark]

theorem scanNumeric_append {text after : List Char} (plain : '\\' ∉ text)
    (stops : Stops after) : scanNumeric (text ++ after) = scanNumeric text := by
  have plainRest : '\\' ∉ text.drop (Numeral.scan text).2 :=
    fun member => plain (List.mem_of_mem_drop member)
  have percent : Character.isJoining '%' = true := by decide
  rw [scanNumeric_eq, scanNumeric_eq, Numeral.scan_append stops,
    List.drop_append_of_le_length (Numeral.scan_length_le text)]
  simp only [stops.head?_append percent, Name.starts_append plainRest stops,
    Name.scan_append plainRest stops]

theorem startsMarkupClose_append {text after : List Char} (stops : Stops after) :
    startsMarkupClose (text ++ after) = startsMarkupClose text := by
  rw [Bool.eq_iff_iff, startsMarkupClose_iff, startsMarkupClose_iff]
  constructor
  · rintro ⟨tail, whole⟩
    rcases stops.append_eq_cons whole (by decide) with ⟨second, rfl, behindFirst⟩
    rcases stops.append_eq_cons behindFirst (by decide) with ⟨third, rfl, behindSecond⟩
    rcases stops.append_eq_cons behindSecond (by decide) with ⟨fourth, rfl, _⟩
    exact ⟨fourth, rfl⟩
  · rintro ⟨tail, rfl⟩
    exact ⟨tail ++ after, rfl⟩

theorem mem_of_closed_string {quote : Char} {rest after : List Char}
    (closed : Lexeme.isClosed ⟨(scanString quote 0 (rest ++ after)).1,
      (quote :: rest).take ((scanString quote 0 (rest ++ after)).2 + 1)⟩ = true) :
    quote ∈ rest := by
  rw [List.take_succ_cons] at closed
  have kind := scanString_token quote 0 (rest ++ after)
  exact List.mem_of_mem_take (Lexeme.mem_of_isClosed_string kind closed)

theorem mem_of_closed_name {text after : List Char} (plain : '\\' ∉ text) (apart : Apart after)
    (closed : Lexeme.isClosed ⟨(scanName (text ++ after)).1,
      text.take (scanName (text ++ after)).2⟩ = true) :
    address? text = none ∨ ')' ∈ text := by
  rcases address : address? text with _ | behind
  · exact Or.inl rfl
  · right
    have kind : (scanName (text ++ after)).1 = .url ∨
        (scanName (text ++ after)).1 = .brokenUrl := by
      rw [scanName_eq, address?_append plain apart, address]
      exact scanUrl_token _ _
    exact List.mem_of_mem_take (Lexeme.mem_of_isClosed_url kind closed)

theorem infix_of_closed_comment {body after : List Char}
    (closed : Lexeme.isClosed ⟨(scanMark ('/' :: '*' :: body ++ after)).1,
      ('/' :: '*' :: body).take (scanMark ('/' :: '*' :: body ++ after)).2⟩ = true) :
    ['*', '/'] <:+: body := by
  have ended := Lexeme.infix_of_isClosed_comment closed
  rw [List.drop_take] at ended
  exact ended.trans (List.take_prefix _ _).isInfix

/--
A closed lexeme that ends within a text without escapes is the same in front of
every two texts that stop, if the one that it is found in front of stays apart from it.
-/
theorem scan_append_congr {text left right : List Char} (nonempty : text ≠ [])
    (plain : '\\' ∉ text) (apartLeft : Apart left) (stopsRight : Stops right)
    (inside : (scan (text ++ left)).2 ≤ text.length)
    (closed : (Lexeme.front (text ++ left)).isClosed = true) :
    scan (text ++ right) = scan (text ++ left) := by
  have closedPiece : Lexeme.isClosed ⟨(scan (text ++ left)).1,
      text.take (scan (text ++ left)).2⟩ = true := by
    rw [← Lexeme.text_front_append inside]
    exact closed
  clear closed inside
  rcases List.exists_cons_of_ne_nil nonempty with ⟨first, rest, rfl⟩
  have plainRest := List.not_mem_of_not_mem_cons plain
  have starts : ∀ {after}, Stops after →
      Numeral.starts (first :: (rest ++ after)) = Numeral.starts (first :: rest) ∧
        startsMarkupClose (first :: (rest ++ after)) = startsMarkupClose (first :: rest) ∧
        Name.starts (first :: (rest ++ after)) = Name.starts (first :: rest) :=
    fun stops => ⟨@Numeral.starts_append (first :: rest) _ stops,
      @startsMarkupClose_append (first :: rest) _ stops,
      @Name.starts_append (first :: rest) _ plain stops⟩
  by_cases space : Character.isSpace first = true
  · simp [scan_cons, space]
  by_cases quoted : (first == '"' || first == '\'') = true
  · have scanned : ∀ after, scan (first :: rest ++ after) =
        lengthen 1 (scanString first 0 (rest ++ after)) := by
      intro after
      simp [scan_cons, space, quoted]
    rw [scanned] at closedPiece
    have ended := mem_of_closed_string closedPiece
    rw [scanned, scanned, scanString_append plainRest ended, scanString_append plainRest ended]
  by_cases numeral : Numeral.starts (first :: rest) = true
  · have scanned : ∀ {after}, Stops after →
        scan (first :: rest ++ after) = scanNumeric (first :: rest ++ after) := by
      intro after stops
      simp [scan_cons, space, quoted, starts stops, numeral]
    rw [scanned apartLeft.stops, scanned stopsRight, scanNumeric_append plain apartLeft.stops,
      scanNumeric_append plain stopsRight]
  by_cases close : startsMarkupClose (first :: rest) = true
  · simp [scan_cons, space, quoted, starts apartLeft.stops, starts stopsRight, numeral, close]
  by_cases name : Name.starts (first :: rest) = true
  · have scanned : ∀ {after}, Stops after →
        scan (first :: rest ++ after) = scanName (first :: rest ++ after) := by
      intro after stops
      simp [scan_cons, space, quoted, starts stops, numeral, close, name]
    rw [scanned apartLeft.stops] at closedPiece
    have ended := mem_of_closed_name plain apartLeft closedPiece
    rw [scanned apartLeft.stops, scanned stopsRight, scanName_append plain apartLeft.stops ended,
      scanName_append plain stopsRight ended]
  · have scanned : ∀ {after}, Stops after →
        scan (first :: rest ++ after) = scanMark (first :: rest ++ after) := by
      intro after stops
      simp [scan_cons, space, quoted, starts stops, numeral, close, name]
    rw [scanned apartLeft.stops] at closedPiece
    have ended : ∀ body, first :: rest = '/' :: '*' :: body → ['*', '/'] <:+: body := by
      intro body comment
      rw [comment] at closedPiece
      exact infix_of_closed_comment closedPiece
    rw [scanned apartLeft.stops, scanned stopsRight,
      scanMark_append nonempty plain apartLeft.stops ended,
      scanMark_append nonempty plain stopsRight ended]

end Token

namespace Lexeme

/--
A text reads as the given lexemes in front of another one: they are the first
lexemes of both together, and those of the other text follow.
-/
def Reads (text : List Char) (lexemes : List Lexeme) (after : List Char) : Prop :=
  ofText (text ++ after) = lexemes ++ ofText after

namespace Reads

theorem nil (after : List Char) : Reads [] [] after :=
  rfl

theorem textOf_eq {text after : List Char} {lexemes : List Lexeme}
    (reads : Reads text lexemes after) : textOf lexemes = text := by
  have spelled := congrArg textOf reads
  rw [textOf_ofText, textOf, List.flatMap_append] at spelled
  have rest := textOf_ofText after
  unfold textOf at rest
  rw [rest] at spelled
  exact (List.append_cancel_right spelled).symm

theorem append {left right after : List Char} {first second : List Lexeme}
    (readsLeft : Reads left first (right ++ after)) (readsRight : Reads right second after) :
    Reads (left ++ right) (first ++ second) after := by
  unfold Reads at *
  rw [List.append_assoc, readsLeft, readsRight, List.append_assoc]

theorem ofText_eq {text : List Char} {lexemes : List Lexeme} (reads : Reads text lexemes []) :
    ofText text = lexemes := by
  simpa [Reads] using reads

theorem self (text : List Char) : Reads text (ofText text) [] := by
  simp [Reads]

theorem uncons {text after : List Char} {lexeme : Lexeme} {lexemes : List Lexeme}
    (reads : Reads text (lexeme :: lexemes) after) :
    lexeme = front (text ++ after) ∧ (Token.scan (text ++ after)).2 ≤ text.length ∧
      Reads (text.drop (Token.scan (text ++ after)).2) lexemes after := by
  have spelled := reads.textOf_eq
  have nonempty : text ++ after ≠ [] := by
    intro none
    simp [Reads, none] at reads
  unfold Reads at reads
  rw [ofText_eq_cons nonempty, List.cons_append, List.cons.injEq] at reads
  have inside : (Token.scan (text ++ after)).2 ≤ text.length := by
    rw [← length_text_front, reads.1, ← spelled]
    simp [textOf]
  refine ⟨reads.1.symm, inside, ?_⟩
  unfold Reads
  rw [← reads.2, List.drop_append_of_le_length inside]

/--
Closed lexemes of a text without escapes stay what they are when the text that
follows is replaced by another one that stops.
-/
theorem congr {text left right : List Char} {lexemes : List Lexeme} (plain : '\\' ∉ text)
    (apartLeft : Token.Apart left) (stopsRight : Stops right)
    (closed : ∀ lexeme ∈ lexemes, lexeme.isClosed = true) (reads : Reads text lexemes left) :
    Reads text lexemes right := by
  induction lexemes generalizing text with
  | nil =>
      have nothing := reads.textOf_eq
      simp only [textOf, List.flatMap_nil] at nothing
      subst nothing
      exact nil right
  | cons lexeme lexemes ih =>
      rcases reads.uncons with ⟨rfl, inside, readsRest⟩
      have positive : 0 < (Token.scan (text ++ left)).2 := by
        apply Token.scan_length_pos
        intro none
        simp [Reads, none] at reads
      have nonempty : text ≠ [] := by
        rintro rfl
        rw [List.length_nil] at inside
        omega
      have same := Token.scan_append_congr nonempty plain apartLeft stopsRight inside
        (closed _ (by simp))
      have readsRight := ih (fun member => plain (List.mem_of_mem_drop member))
        (fun lexeme member => closed lexeme (List.mem_cons_of_mem _ member)) readsRest
      unfold Reads at readsRight ⊢
      rw [ofText_eq_cons (by simp [nonempty]), same, List.cons_append,
        List.drop_append_of_le_length inside, readsRight]
      simp only [front, same, List.take_append_of_le_length inside]

end Reads

end Lexeme

end MediaQuery
