import MediaQuery.Proofs.Lexeme.Closed

/-!
# How lexemes are spelled

What the text of a lexeme looks like from its token, and from there how words,
blanks and brackets read in front of other texts.
-/

namespace MediaQuery

open Text (Stops)

namespace Character

theorem isSpace_iff {character : Char} :
    isSpace character = true ↔ character = ' ' ∨ character = '\t' ∨ character = '\n' ∨
      character = '\r' ∨ character = '\x0c' := by
  simp [isSpace, isNewline, or_assoc]

theorem isJoining_of_isSpace {character : Char} (space : isSpace character = true) :
    isJoining character = false := by
  rcases isSpace_iff.mp space with rfl | rfl | rfl | rfl | rfl <;> decide

theorem isNamePart_of_isSpace {character : Char} (space : isSpace character = true) :
    isNamePart character = false :=
  isNamePart_of_stops (isJoining_of_isSpace space)

end Character

namespace Lexeme

/-- The lexemes of a text behind some of them are those of the text behind these. -/
theorem ofText_textOf_of_append {text : List Char} {front back : List Lexeme}
    (parts : ofText text = front ++ back) : ofText (textOf back) = back := by
  induction front generalizing text with
  | nil =>
      rw [List.nil_append] at parts
      rw [← parts, textOf_ofText]
  | cons lexeme rest ih =>
      have nonempty : text ≠ [] := by
        rintro rfl
        simp at parts
      rw [ofText_eq_cons nonempty, List.cons_append, List.cons.injEq] at parts
      exact ih parts.2

@[simp]
theorem textOf_nil : textOf [] = [] :=
  rfl

@[simp]
theorem textOf_cons (lexeme : Lexeme) (lexemes : List Lexeme) :
    textOf (lexeme :: lexemes) = lexeme.text ++ textOf lexemes :=
  rfl

@[simp]
theorem textOf_append (front back : List Lexeme) :
    textOf (front ++ back) = textOf front ++ textOf back :=
  List.flatMap_append

theorem textOf_infix {lexemes others : List Lexeme} (inside : lexemes <:+: others) :
    textOf lexemes <:+: textOf others := by
  rcases inside with ⟨front, back, rfl⟩
  exact ⟨textOf front, textOf back, by simp⟩

/-- Lexemes in the middle of a text are read from their own text in front of what follows. -/
theorem Reads.of_append {text : List Char} {front middle back : List Lexeme}
    (parts : ofText text = front ++ (middle ++ back)) :
    Reads (textOf middle) middle (textOf back) := by
  have behind := ofText_textOf_of_append parts
  have last := ofText_textOf_of_append behind
  rw [Reads, ← textOf_append, behind, last]

end Lexeme

namespace Token

open Character

theorem scanName_token (text : List Char) :
    (scanName text).1 = .url ∨ (scanName text).1 = .brokenUrl ∨ (scanName text).1 = .function ∨
      (scanName text).1 = .ident (Name.scan text).1 := by
  rw [scanName_eq]
  split
  · rename_i rest _
    rcases scanUrl_token 0 (rest.drop (rest.takeWhile isSpace).length) with url | broken
    · exact Or.inl url
    · exact Or.inr (Or.inl broken)
  · split
    · exact Or.inr (Or.inr (Or.inl rfl))
    · exact Or.inr (Or.inr (Or.inr rfl))

theorem scanNumeric_token (text : List Char) :
    ∃ numeral, (scanNumeric text).1 = .percentage numeral ∨ (scanNumeric text).1 = .number numeral ∨
      ∃ unit, (scanNumeric text).1 = .dimension numeral unit := by
  rw [scanNumeric_eq]
  refine ⟨(Numeral.scan text).1, ?_⟩
  split
  · exact Or.inl rfl
  · split
    · exact Or.inr (Or.inr ⟨_, rfl⟩)
    · exact Or.inr (Or.inl rfl)

theorem eq_of_scan_closing {text : List Char} (nonempty : text ≠ [])
    (closing : (scan text).1 = .closing .round) : (scan text).2 = 1 ∧ text.head? = some ')' := by
  refine scan_cases (motive := fun text scanned => scanned.1 = .closing .round →
    scanned.2 = 1 ∧ text.head? = some ')') ?_ ?_ ?_ ?_ ?_ ?_ nonempty closing
  · intro first rest blank closing
    simp at closing
  · intro quote rest quoted closing
    rcases scanString_token quote 0 rest with kind | kind <;> simp [kind] at closing
  · intro text starts closing
    rcases scanNumeric_token text with ⟨numeral, kind | kind | ⟨unit, kind⟩⟩ <;>
      simp [kind] at closing
  · intro rest closing
    simp at closing
  · intro text starts closing
    rcases scanName_token text with kind | kind | kind | kind <;> simp [kind] at closing
  · intro first rest noSpace
    fun_cases scanMark (first :: rest) <;> simp_all

theorem isSpace_of_scan {text : List Char} (nonempty : text ≠ [])
    (space : (scan text).1 = .space) : ∀ first ∈ text.head?, isSpace first = true := by
  refine scan_cases (motive := fun text scanned => scanned.1 = .space →
    ∀ first ∈ text.head?, isSpace first = true) ?_ ?_ ?_ ?_ ?_ ?_ nonempty space
  · intro first rest blank _ front member
    have same : first = front := by simpa using member
    subst same
    exact blank
  · intro quote rest _ space
    rcases scanString_token quote 0 rest with kind | kind <;> simp [kind] at space
  · intro text _ space
    rcases scanNumeric_token text with ⟨numeral, kind | kind | ⟨unit, kind⟩⟩ <;>
      simp [kind] at space
  · intro rest space
    simp at space
  · intro text _ space
    rcases scanName_token text with kind | kind | kind | kind <;> simp [kind] at space
  · intro first rest _
    fun_cases scanMark (first :: rest) <;> simp

theorem exists_append_of_getLast? {text : List Char} {count : Nat} {last : Char}
    (member : last ∈ (text.take count).getLast?) :
    ∃ front rest, text = front ++ last :: rest ∧ front.length < count := by
  rcases List.getLast?_eq_some_iff.mp member with ⟨front, taken⟩
  refine ⟨front, text.drop count, ?_, ?_⟩
  · have parts := List.take_append_drop count text
    rw [taken, List.append_assoc] at parts
    exact parts.symm
  · have lengths := congrArg List.length taken
    rw [List.length_take, List.length_append, List.length_singleton] at lengths
    omega

theorem isSpace_getLast?_string {quote : Char} {rest : List Char} {last : Char}
    (quoted : quote = '"' ∨ quote = '\'')
    (closed : Lexeme.isClosed ⟨(scanString quote 0 rest).1,
      (quote :: rest).take ((scanString quote 0 rest).2 + 1)⟩ = true)
    (member : last ∈ ((quote :: rest).take ((scanString quote 0 rest).2 + 1)).getLast?) :
    isSpace last = false := by
  rcases scanString_token quote 0 rest with kind | kind
  · simp only [Lexeme.isClosed, kind, Bool.and_eq_true, beq_iff_eq] at closed
    rw [closed.2, List.take_succ_cons, List.head?_cons, Option.mem_some_iff] at member
    subst member
    rcases quoted with rfl | rfl <;> decide
  · simp [Lexeme.isClosed, kind] at closed

theorem isSpace_getLast?_numeric {text : List Char} {last : Char}
    (plain : '\\' ∉ text) (member : last ∈ (text.take (scanNumeric text).2).getLast?) :
    isSpace last = false := by
  by_contra space
  rcases exists_append_of_getLast? member with ⟨front, rest, rfl, short⟩
  have stops : Stops (last :: rest) :=
    Text.stops_cons.mpr (isJoining_of_isSpace (by simpa using space))
  rw [scanNumeric_append (fun inside => plain (List.mem_append_left _ inside)) stops] at short
  have within := scanNumeric_length_le front
  omega

theorem isSpace_getLast?_name {text : List Char} {last : Char} (plain : '\\' ∉ text)
    (closed : Lexeme.isClosed ⟨(scanName text).1, text.take (scanName text).2⟩ = true)
    (member : last ∈ (text.take (scanName text).2).getLast?) : isSpace last = false := by
  rcases address : address? text with _ | rest
  · have name : text.take (Name.scan text).2 = text.takeWhile isNamePart := by
      rw [Name.scan_eq_of_plain plain]
      exact (List.prefix_iff_eq_take.mp (List.takeWhile_prefix isNamePart)).symm
    simp only [scanName_eq, address] at member
    split at member
    · rename_i opened
      rw [List.take_add_one, ← List.head?_drop, opened] at member
      have same : '(' = last := by simpa using member
      subst same
      decide
    · by_contra space
      rw [name] at member
      have part := List.mem_takeWhile_imp (List.mem_of_getLast? member)
      rw [isNamePart_of_isSpace (by simpa using space)] at part
      exact absurd part (by decide)
  · have kind : (scanName text).1 = .url ∨ (scanName text).1 = .brokenUrl := by
      rw [scanName_eq, address]
      exact scanUrl_token _ _
    have bracket : (text.take (scanName text).2).getLast? = some ')' := by
      rcases kind with kind | kind <;> simpa [Lexeme.isClosed, kind] using closed
    rw [bracket, Option.mem_some_iff] at member
    subst member
    decide

theorem isSpace_getLast?_mark {first : Char} {rest : List Char} {last : Char}
    (noSpace : isSpace first = false) (plain : '\\' ∉ first :: rest)
    (closed : Lexeme.isClosed ⟨(scanMark (first :: rest)).1,
      (first :: rest).take (scanMark (first :: rest)).2⟩ = true)
    (member : last ∈ ((first :: rest).take (scanMark (first :: rest)).2).getLast?) :
    isSpace last = false := by
  by_contra space
  rcases exists_append_of_getLast? member with ⟨front, behind, parts, short⟩
  have stops : Stops (last :: behind) :=
    Text.stops_cons.mpr (isJoining_of_isSpace (by simpa using space))
  have nonempty : front ≠ [] := by
    rintro rfl
    rw [List.nil_append, List.cons.injEq] at parts
    rw [parts.1] at noSpace
    exact space noSpace
  by_cases comment : ∃ body, front = '/' :: '*' :: body
  · rcases comment with ⟨body, rfl⟩
    rw [parts] at closed member
    rcases List.isSuffixOf_iff_suffix.mp closed with ⟨start, ended⟩
    have whole := List.take_append_drop 2 (('/' :: '*' :: body ++ last :: behind).take
      (scanMark ('/' :: '*' :: body ++ last :: behind)).2)
    rw [← ended] at whole
    rw [← whole, ← List.append_assoc] at member
    have same : '/' = last := by simpa using member
    subst same
    exact space (by decide)
  · rw [parts] at plain short
    rw [scanMark_append nonempty (fun inside => plain (List.mem_append_left _ inside)) stops
      (fun body whole => absurd ⟨body, whole⟩ comment)] at short
    have within := scanMark_length_le front
    omega

/-- A closed lexeme of a text without escapes ends with a space only if it is one. -/
theorem isSpace_getLast?_scan {text : List Char} (nonempty : text ≠ []) (plain : '\\' ∉ text)
    (closed : Lexeme.isClosed ⟨(scan text).1, text.take (scan text).2⟩ = true)
    (noSpace : (scan text).1 ≠ .space) {last : Char}
    (member : last ∈ (text.take (scan text).2).getLast?) : isSpace last = false := by
  refine scan_cases (motive := fun text scanned => '\\' ∉ text →
    Lexeme.isClosed ⟨scanned.1, text.take scanned.2⟩ = true → scanned.1 ≠ .space →
      last ∈ (text.take scanned.2).getLast? → isSpace last = false) ?_ ?_ ?_ ?_ ?_ ?_ nonempty
    plain closed noSpace member
  · intro first rest _ _ _ other
    exact absurd rfl other
  · intro quote rest quoted _ closed _ member
    exact isSpace_getLast?_string quoted closed member
  · intro text _ plain _ _ member
    exact isSpace_getLast?_numeric plain member
  · intro rest _ _ _ member
    have same : '>' = last := by simpa using member
    subst same
    decide
  · intro text _ plain closed _ member
    exact isSpace_getLast?_name plain closed member
  · intro first rest noSpace plain closed _ member
    exact isSpace_getLast?_mark noSpace plain closed member

end Token

end MediaQuery
