import MediaQuery.Proofs.Query.Comment
import MediaQuery.Proofs.Query.Scan

/-!
# Blocks that the end of a query closes

A query that ends within a block is read as if the block were closed there. The bracket that would
close the block does not change how the text in front of it is read, and it adds nothing to what
the block holds. As a comma ends a query also within brackets, it closes the block as well.
-/

namespace MediaQuery

open Text (Stops)

namespace Token

/-- A string that a newline cuts off has the newline in sight. -/
theorem exists_newline_of_scanString {quote : Char} {text : List Char} (plain : '\\' ∉ text)
    (broken : (scanString quote 0 text).1 = .brokenString) :
    ∃ character ∈ text, Character.isNewline character = true := by
  induction text with
  | nil => cases broken
  | cons first rest ih =>
      have noBackslash := (List.ne_of_not_mem_cons plain).symm
      by_cases atQuote : first = quote
      · simp [scanString, atQuote] at broken
      by_cases newline : Character.isNewline first = true
      · exact ⟨first, List.mem_cons_self, newline⟩
      have brokenRest : (scanString quote 0 rest).1 = .brokenString := by
        simpa [scanString, atQuote, newline, noBackslash] using broken
      rcases ih (List.not_mem_of_not_mem_cons plain) brokenRest with ⟨character, member, ends⟩
      exact ⟨character, List.mem_cons_of_mem _ member, ends⟩

/-- A lexeme that is closed, or a string that is cut off, is the same in front of what stops. -/
theorem scan_append_of_ended {text after : List Char} (nonempty : text ≠ []) (plain : '\\' ∉ text)
    (stops : Stops after)
    (ended : (scan text).1 = .brokenString ∨ (Lexeme.front text).isClosed = true) :
    scan (text ++ after) = scan text := by
  rcases ended with broken | closed
  · rcases quote_of_brokenString nonempty broken with ⟨quote, rest, rfl, quoted⟩
    have plainRest := List.not_mem_of_not_mem_cons plain
    rw [scan_quote quoted, lengthen_fst] at broken
    rcases exists_newline_of_scanString plainRest broken with ⟨character, member, newline⟩
    rw [List.cons_append, scan_quote quoted, scan_quote quoted,
      scanString_append_of_end plainRest ⟨character, member, Or.inr newline⟩]
  · have whole : text ++ [] = text := List.append_nil text
    have same := @scan_append_congr text [] after nonempty plain apart_nil stops
    rw [whole] at same
    exact same (scan_length_le text) closed

end Token

namespace Lexeme

variable {text after : List Char}

/-- Lexemes that have their ends are the same in front of what stops. -/
theorem Reads.of_ended (plain : '\\' ∉ text) (stops : Stops after)
    (ended : ∀ lexeme ∈ ofText text, lexeme.token = .brokenString ∨ lexeme.isClosed = true) :
    Reads text (ofText text) after := by
  induction text using ofText_induction with
  | nil => exact nil after
  | cons text nonempty ih =>
      rw [ofText_eq_cons nonempty] at ended ⊢
      have same := Token.scan_append_of_ended nonempty plain stops (ended _ List.mem_cons_self)
      have within := Token.scan_length_le text
      have readsRest := ih (fun member => plain (List.mem_of_mem_drop member))
        fun lexeme member => ended lexeme (List.mem_cons_of_mem _ member)
      unfold Reads at readsRest ⊢
      rw [ofText_eq_cons (by simp [nonempty]), same, List.cons_append,
        List.drop_append_of_le_length within, readsRest]
      simp only [front, same, List.take_append_of_le_length within]

/-- If the last lexeme of a text has its end, then all of them have. -/
theorem ended_of_getLast? (plain : '\\' ∉ text)
    (last : ∀ lexeme ∈ (ofText text).getLast?, lexeme.isClosed = true) :
    ∀ lexeme ∈ ofText text, lexeme.token = .brokenString ∨ lexeme.isClosed = true := by
  rcases List.eq_nil_or_concat' (ofText text) with nothing | ⟨before, final, lexemes⟩
  · simp [nothing]
  · rw [lexemes] at last ⊢
    have parts : ofText text = [] ++ (before ++ [final]) := lexemes
    have reads := Reads.of_append parts
    have whole : textOf before ++ textOf [final] = text := by
      rw [← textOf_append, ← lexemes, textOf_ofText]
    have goesOn : textOf [final] ≠ [] := by
      have member : final ∈ ofText text := by simp [lexemes]
      simpa using text_ne_nil_of_mem_ofText member
    have earlier := reads.isClosed_of_ne_nil (whole.symm ▸ plain) goesOn
    intro lexeme member
    rcases List.mem_append.mp member with front | back
    · exact earlier lexeme front
    · exact Or.inr (last lexeme (by simpa [eq_comm] using back))

end Lexeme

/-- A bracket that closes the block that lexemes end in adds nothing to their components. -/
theorem Component.ofLexemes_append_closing {lexemes : List Lexeme} {bracket : Bracket}
    (level : Lexeme.nestAll [] lexemes = [bracket]) (text : List Char) (rest : List Lexeme) :
    ofLexemes (lexemes ++ ⟨.closing bracket, text⟩ :: rest) =
      ofLexemes lexemes ++ ofLexemes rest := by
  have isOpen : Lexeme.nestAll [] lexemes ≠ [] := by simp [level]
  rcases Lexeme.exists_opener_of_level isOpen with
    ⟨front, opener, outer, inside, rfl, closed, opens, kept⟩
  have innermost : Lexeme.nestAll [outer] inside = [bracket] := by
    rwa [Lexeme.nestAll_append, closed, Lexeme.nestAll_cons, Token.nest_of_opens opens] at level
  have ends : Lexeme.blockContent [bracket] (⟨.closing bracket, text⟩ :: rest) = [] := by
    rw [Lexeme.blockContent_cons, Token.nest_closing, if_pos rfl]
  have alone := ofLexemes_append_of_open closed opens kept []
  have followed := ofLexemes_append_of_open closed opens kept (⟨.closing bracket, text⟩ :: rest)
  rw [innermost, Lexeme.blockContent_nil] at alone
  rw [innermost, ends] at followed
  rw [List.append_nil] at alone
  rw [followed, alone]
  simp

/-- A clause that ends within one block in round brackets, and with nothing else open. -/
structure EndsInBlock (clause : List Char) : Prop where
  plain : '\\' ∉ clause
  noComma : ',' ∉ clause
  level : Lexeme.nestAll [] (Lexeme.ofText clause) = [.round]
  last : ∀ lexeme ∈ (Lexeme.ofText clause).getLast?, lexeme.isClosed = true

namespace EndsInBlock

variable {clause : List Char}

theorem iff_and : EndsInBlock clause ↔ ('\\' ∉ clause ∧ ',' ∉ clause) ∧
    Lexeme.nestAll [] (Lexeme.ofText clause) = [.round] ∧
    ∀ lexeme ∈ (Lexeme.ofText clause).getLast?, lexeme.isClosed = true :=
  ⟨fun ends => ⟨⟨ends.plain, ends.noComma⟩, ends.level, ends.last⟩,
    fun ⟨⟨plain, noComma⟩, level, last⟩ => ⟨plain, noComma, level, last⟩⟩

instance : Decidable (EndsInBlock clause) :=
  decidable_of_iff _ iff_and.symm

theorem ofText_append_closing (ends : EndsInBlock clause) :
    Lexeme.ofText (clause ++ [')']) = Lexeme.ofText clause ++ [⟨.closing .round, [')']⟩] :=
  Lexeme.Reads.of_ended ends.plain (Text.stops_cons.mpr (by decide))
    (Lexeme.ended_of_getLast? ends.plain ends.last)

theorem query_append_closing (ends : EndsInBlock clause) :
    Query.ofText (clause ++ [')']) = Query.ofText clause := by
  rw [Query.ofText, Query.ofText, Component.ofText, Component.ofText, ends.ofText_append_closing,
    Component.ofLexemes_append_closing ends.level, Component.ofLexemes_nil, List.append_nil]

end EndsInBlock

/--
A clause that ends within a block is the same query as with the bracket that closes the block, also
as it is read token by token. So a comma within a block ends a query of a list exactly as the
bracket and a comma do, whatever follows.
-/
theorem QueryList.ofString_append_closing {clause : String} (ends : EndsInBlock clause.toList) :
    Query.ofString (clause ++ ")") = Query.ofString clause ∧
      Query.scan (clause ++ ")") = Query.scan clause ∧
      ∀ rest, ofString (clause ++ "," ++ rest) = ofString (clause ++ ")," ++ rest) := by
  have whole : (clause ++ ")").toList = clause.toList ++ [')'] := by simp
  have same : Query.ofString (clause ++ ")") = Query.ofString clause := by
    rw [Query.ofString, whole]
    exact ends.query_append_closing
  refine ⟨same, ?_, fun rest => ?_⟩
  · rw [← Query.ofString_eq_scan, same, Query.ofString_eq_scan]
  · have noComma : ',' ∉ (clause ++ ")").toList := by
      rw [whole]
      simpa using ends.noComma
    have closed : clause ++ ")," ++ rest = clause ++ ")" ++ "," ++ rest := by
      simp [String.append_assoc]
    rw [closed, ofString_append_comma, ofString_append_comma, ofString_of_not_mem ends.noComma,
      ofString_of_not_mem noComma, same]

/-- A value with a comment and a closed address, behind a string that a newline cuts off. -/
theorem QueryList.ofString_append_closing_url :
    let clause := "not 'tv\n print [a] (min-width: 5/**/px url(a)"
    EndsInBlock clause.toList ∧ Query.ofString (clause ++ ")") = Query.ofString clause ∧
      ofString (clause ++ ", tv") = ofString (clause ++ "), tv") := by
  intro clause
  have ends : EndsInBlock clause.toList := by decide +kernel
  rcases ofString_append_closing ends with ⟨same, _, list⟩
  exact ⟨ends, same, list " tv"⟩

end MediaQuery
