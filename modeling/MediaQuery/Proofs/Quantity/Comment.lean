import MediaQuery.Proofs.Lexeme.Seam
import MediaQuery.Proofs.Quantity.Solid
import MediaQuery.Proofs.Text.Trim

/-!
# Comments in a quantity

A comment between the lexemes of a value does not change what quantity the value is, nor
whether it is one. What has to be seen to is the white space around the value, which is not
kept with it.
-/

namespace MediaQuery

namespace Token

theorem quote_of_brokenString {text : List Char} (nonempty : text ≠ [])
    (broken : (scan text).1 = .brokenString) :
    ∃ quote rest, text = quote :: rest ∧ (quote = '"' ∨ quote = '\'') := by
  refine scan_cases (motive := fun text scanned => scanned.1 = .brokenString →
    ∃ quote rest, text = quote :: rest ∧ (quote = '"' ∨ quote = '\'')) ?_ ?_ ?_ ?_ ?_ ?_
    nonempty broken
  · intro first rest _ token
    cases token
  · intro quote rest quoted _
    exact ⟨quote, rest, rfl, quoted⟩
  · intro text _ token
    rcases scanNumeric_token text with ⟨numeral, kind | kind | ⟨unit, kind⟩⟩ <;>
      simp [kind] at token
  · intro rest token
    cases token
  · intro text _ token
    rcases scanName_token text with kind | kind | kind | kind <;> simp [kind] at token
  · intro first rest _
    fun_cases scanMark (first :: rest) <;> simp

theorem scan_quote {quote : Char} (quoted : quote = '"' ∨ quote = '\'') (rest : List Char) :
    scan (quote :: rest) = lengthen 1 (scanString quote 0 rest) := by
  rcases quoted with rfl | rfl <;> rfl

end Token

namespace Lexeme

theorem quote_of_mem {text : List Char} {lexeme : Lexeme} (member : lexeme ∈ ofText text)
    (broken : lexeme.token = .brokenString) :
    ∃ quote rest, lexeme.text = quote :: rest ∧ (quote = '"' ∨ quote = '\'') := by
  rcases exists_front_cons_of_mem member with ⟨first, source, rest, _, same, spelled⟩
  rw [same] at broken
  rcases Token.quote_of_brokenString (List.cons_ne_nil first source) broken with
    ⟨quote, _, starts, quoted⟩
  exact ⟨first, rest, spelled, (List.cons.inj starts).1 ▸ quoted⟩

variable {more : List Char}

/-- A string that a newline cuts off is a string of some kind, wherever its text is cut. -/
theorem exists_string_of_brokenString {before : List Lexeme} {broken : Lexeme}
    (plain : '\\' ∉ textOf (before ++ [broken]) ++ more) (cutOff : broken.token = .brokenString)
    (reads : Reads (textOf (before ++ [broken])) (before ++ [broken]) more) :
    ∃ lexeme ∈ solid (ofText ((textOf (before ++ [broken])).rdropWhile Character.isSpace)),
      lexeme.token.isNumeric = false := by
  have whole : ofText (textOf (before ++ [broken]) ++ more) =
      [] ++ (before ++ (broken :: ofText more)) := by
    rw [reads]
    simp
  have among : broken ∈ ofText (textOf (before ++ [broken]) ++ more) := by
    rw [whole]
    simp
  rcases quote_of_mem among cutOff with ⟨quote, rest, spelled, quoted⟩
  have noSpace : Character.isSpace quote = false := by rcases quoted with rfl | rfl <;> decide
  have stays : ∃ character ∈ broken.text, Character.isSpace character = false :=
    ⟨quote, by simp [spelled], noSpace⟩
  have text : (textOf (before ++ [broken])).rdropWhile Character.isSpace =
      textOf before ++ broken.text.rdropWhile Character.isSpace := by
    rw [textOf_append, textOf_cons, textOf_nil, List.append_nil,
      Text.rdropWhile_append_of_exists stays]
  have starts : ∃ tail, broken.text.rdropWhile Character.isSpace = quote :: tail := by
    have beginning : broken.text.rdropWhile Character.isSpace <+: quote :: rest :=
      spelled ▸ List.rdropWhile_prefix _ _
    rcases remains : broken.text.rdropWhile Character.isSpace with _ | ⟨first, tail⟩
    · have all := List.rdropWhile_eq_nil_iff.mp remains quote (by simp [spelled])
      rw [noSpace] at all
      exact absurd all (by decide)
    · rw [remains, List.cons_prefix_cons] at beginning
      exact ⟨tail, by rw [beginning.1]⟩
  rcases starts with ⟨tail, starts⟩
  have readsBefore : Reads (textOf before) before (quote :: tail ++
      (broken.text.rtakeWhile Character.isSpace ++ more)) := by
    have readsBefore := Reads.of_append whole
    rwa [textOf_cons, textOf_ofText, ← List.rdropWhile_append_rtakeWhile (p := Character.isSpace)
      (l := broken.text), List.append_assoc, starts] at readsBefore
  have plainBefore : '\\' ∉ textOf before ++ (quote :: tail ++
      (broken.text.rtakeWhile Character.isSpace ++ more)) := by
    rw [← starts, ← List.append_assoc _ _ more, List.rdropWhile_append_rtakeWhile]
    simpa using plain
  have cut := readsBefore.cut plainBefore (Or.inr ⟨quote, by simp, noSpace⟩)
  rw [text, starts, cut, ofText_eq_cons (List.cons_ne_nil quote tail)]
  have kind : (front (quote :: tail)).token = .string ∨
      (front (quote :: tail)).token = .brokenString := by
    rw [front, Token.scan_quote quoted]
    exact Token.scanString_token quote 0 tail
  refine ⟨front (quote :: tail), ?_, ?_⟩
  · rw [solid_append]
    apply List.mem_append_right
    rcases kind with kind | kind <;> simp [solid, isBlank, kind, Token.isBlank]
  · rcases kind with kind | kind <;> rw [kind] <;> rfl

variable {value : List Lexeme}

theorem rdropWhile_textOf_concat {before : List Lexeme} {lexeme : Lexeme}
    (spelled : lexeme.text ≠ [])
    (ends : ∀ character ∈ lexeme.text.getLast?, Character.isSpace character = false) :
    (textOf (before ++ [lexeme])).rdropWhile Character.isSpace = textOf (before ++ [lexeme]) := by
  apply List.rdropWhile_eq_self_iff.mpr
  intro remains
  have same : (textOf (before ++ [lexeme])).getLast? = lexeme.text.getLast? := by
    rw [textOf_append, textOf_cons, textOf_nil, List.append_nil,
      List.getLast?_append_of_ne_nil _ spelled]
  rw [← same, List.getLast?_eq_some_getLast remains] at ends
  simpa using ends _ rfl

/--
Spaces at the end of a text can be left out: what remains has the same solid lexemes, or a
string that is not closed.
-/
theorem solid_ofText_rdropWhile (gap : Gap value more) :
    solid (ofText ((textOf value).rdropWhile Character.isSpace)) = solid value ∨
      (∃ lexeme ∈ solid (ofText ((textOf value).rdropWhile Character.isSpace)),
          lexeme.token.isNumeric = false) ∧
        ∃ lexeme ∈ solid value, lexeme.token.isNumeric = false := by
  rcases exists_append_spaces value with ⟨kept, spaces, rfl, blank, last⟩
  have white : ∀ character ∈ textOf spaces, Character.isSpace character = true := by
    intro character inside
    rcases List.mem_flatMap.mp inside with ⟨lexeme, member, spelled⟩
    exact isSpace_of_mem (gap.mem_ofText (List.mem_append_right _ member)) (blank lexeme member)
      character spelled
  have solids : solid (kept ++ spaces) = solid kept := by
    have none : solid spaces = [] := solid_of_isBlank fun lexeme member => by
      rw [isBlank, blank lexeme member]
      rfl
    rw [solid_append, none, List.append_nil]
  have plain := gap.plain
  have readsKept := gap.reads_front
  rw [textOf_append, List.append_assoc] at plain
  rw [textOf_append, Text.rdropWhile_append_of_forall white, solids]
  rcases List.eq_nil_or_concat' kept with rfl | ⟨before, lexeme, rfl⟩
  · exact Or.inl rfl
  by_cases broken : lexeme.token = .brokenString
  · right
    refine ⟨exists_string_of_brokenString plain broken readsKept, lexeme, ?_, ?_⟩
    · simp [solid, isBlank, broken, Token.isBlank]
    · rw [broken]
      rfl
  · left
    have member : lexeme ∈ before ++ [lexeme] ++ spaces := by simp
    have among := gap.mem_ofText member
    have closed := (gap.reads.isClosed_of_ne_nil gap.plain gap.goesOn lexeme member).resolve_left
      broken
    have ends := isSpace_getLast?_of_mem gap.plain among closed (last lexeme (by simp))
    have separable := gap.separable.of_append_spaces blank (by simpa using broken)
    have cut := @Reads.cut _ (textOf spaces ++ more) [] _ plain (Or.inl separable) readsKept
    rw [rdropWhile_textOf_concat (text_ne_nil_of_mem_ofText among) ends, cut.ofText_eq]

theorem trimEnd_append_comment (text body : List Char) :
    Text.trimEnd (text ++ (comment body).text) = text ++ (comment body).text := by
  apply List.rdropWhile_eq_self_iff.mpr
  intro remains
  have last : (text ++ (comment body).text).getLast remains = '/' := by
    simp [comment]
  rw [last]
  decide

variable {ahead : List Lexeme} {body : List Char}

/-- If the value goes on behind the comment, the comment is a lexeme between the others. -/
theorem alike_trimEnd_comment_of_black (gap : Gap value (textOf ahead ++ more))
    (black : ∃ character ∈ textOf ahead, Text.isWhiteSpace character = false)
    (noEnd : ¬ ['*', '/'] <:+: body) :
    Reader.Alike (Text.trimEnd (textOf value ++ textOf ahead))
      (Text.trimEnd (textOf value ++ ((comment body).text ++ textOf ahead))) := by
  have blackToo : ∃ character ∈ (comment body).text ++ textOf ahead,
      Text.isWhiteSpace character = false := by
    rcases black with ⟨character, member, black⟩
    exact ⟨character, List.mem_append_right _ member, black⟩
  have left : Text.trimEnd (textOf value ++ textOf ahead) =
      textOf value ++ Text.trimEnd (textOf ahead) := Text.rdropWhile_append_of_exists black
  have right : Text.trimEnd (textOf value ++ ((comment body).text ++ textOf ahead)) =
      textOf value ++ ((comment body).text ++ Text.trimEnd (textOf ahead)) :=
    (Text.rdropWhile_append_of_exists blackToo).trans
      (congrArg (textOf value ++ ·) (Text.rdropWhile_append_of_exists black))
  have remains : Text.trimEnd (textOf ahead) ≠ [] := by
    intro nothing
    rcases black with ⟨character, member, black⟩
    rw [List.rdropWhile_eq_nil_iff.mp nothing character member] at black
    exact absurd black (by decide)
  have parts : Text.trimEnd (textOf ahead) ++ (textOf ahead).rtakeWhile Text.isWhiteSpace =
      textOf ahead := List.rdropWhile_append_rtakeWhile
  rw [← parts, List.append_assoc] at gap
  have trimmed := gap.cut remains
  left
  rw [left, right, trimmed.reads, trimmed.ofText_comment noEnd, solid_append, solid_append,
    solid_cons_of_isBlank rfl]

/-- If nothing but white space is behind the comment, the comment ends the value. -/
theorem alike_trimEnd_comment_of_white (gap : Gap value (textOf ahead ++ more))
    (white : ∀ character ∈ textOf ahead, Text.isWhiteSpace character = true)
    (edge : ∀ character ∈ ((textOf value).rdropWhile Character.isSpace).getLast?,
      Text.isWhiteSpace character = false) (noEnd : ¬ ['*', '/'] <:+: body) :
    Reader.Alike (Text.trimEnd (textOf value ++ textOf ahead))
      (Text.trimEnd (textOf value ++ ((comment body).text ++ textOf ahead))) := by
  have left : Text.trimEnd (textOf value ++ textOf ahead) =
      (textOf value).rdropWhile Character.isSpace :=
    (Text.rdropWhile_append_of_forall white).trans (Text.trimEnd_eq_rdropWhile edge)
  have right : Text.trimEnd (textOf value ++ ((comment body).text ++ textOf ahead)) =
      textOf value ++ (comment body).text := by
    rw [← List.append_assoc]
    exact (Text.rdropWhile_append_of_forall white).trans (trimEnd_append_comment _ body)
  have before := gap.reads.replace gap.plain gap.goesOn (apart_comment body []) gap.separable
  have read : ofText (textOf value ++ (comment body).text) = value ++ [comment body] := by
    have whole := before.trans (congrArg (value ++ ·) (Reads.comment noEnd []))
    rwa [List.append_nil, ofText_nil] at whole
  have same : solid (value ++ [comment body]) = solid value := by
    rw [solid_append, solid_cons_of_isBlank rfl]
    exact List.append_nil _
  rw [left, right, Reader.Alike, read, same]
  exact solid_ofText_rdropWhile gap

/--
A comment behind lexemes of a value leaves it alike, whatever follows. No white space in front
of the value may be taken away, and none behind it but what separates tokens.
-/
theorem alike_trim_comment (gap : Gap value (textOf ahead ++ more)) (nonempty : textOf value ≠ [])
    (starts : ∀ character ∈ (textOf value).head?, Text.isWhiteSpace character = false)
    (edge : (∀ character ∈ textOf ahead, Text.isWhiteSpace character = true) →
      ∀ character ∈ ((textOf value).rdropWhile Character.isSpace).getLast?,
        Text.isWhiteSpace character = false)
    (noEnd : ¬ ['*', '/'] <:+: body) :
    Reader.Alike (Text.trim (textOf (value ++ ahead)))
      (Text.trim (textOf (value ++ comment body :: ahead))) := by
  have front : ∀ back, Text.trim (textOf value ++ back) = Text.trimEnd (textOf value ++ back) := by
    intro back
    apply Text.trim_eq_trimEnd
    rwa [List.head?_append_of_ne_nil _ nonempty]
  rw [textOf_append, textOf_append, textOf_cons, front, front]
  by_cases black : ∃ character ∈ textOf ahead, Text.isWhiteSpace character = false
  · exact alike_trimEnd_comment_of_black gap black noEnd
  · have white : ∀ character ∈ textOf ahead, Text.isWhiteSpace character = true := by
      simpa using black
    exact alike_trimEnd_comment_of_white gap white (edge white) noEnd

end Lexeme

end MediaQuery
