import MediaQuery.Proofs.Lexeme.Word

/-!
# Blank text

Lexemes that only separate others spell blank text and are read from it. Only the last of a text
may be a comment that nothing ends, so blank text at the end of a text has one more form.
-/

namespace MediaQuery

namespace Token

/-- A comment ends at the first sign that ends one, or with the text. -/
theorem commentLength_cases (text : List Char) :
    (∃ body rest, text = body ++ '*' :: '/' :: rest ∧ ¬ ['*', '/'] <:+: body) ∨
      ¬ ['*', '/'] <:+: text ∧ commentLength text = text.length := by
  fun_induction commentLength text with
  | case1 => exact Or.inr ⟨by simp, rfl⟩
  | case2 rest => exact Or.inl ⟨[], rest, rfl, by simp⟩
  | case3 first rest noEnd ih =>
      have starts : ∀ body, body <+: rest → ¬ ['*', '/'] <+: first :: body := by
        rintro body within ⟨tail, same⟩
        simp only [List.cons_append, List.nil_append, List.cons.injEq] at same
        rcases same with ⟨rfl, rfl⟩
        rcases within with ⟨behind, rfl⟩
        exact noEnd _ rfl rfl
      rcases ih with ⟨body, behind, rfl, free⟩ | ⟨free, length⟩
      · refine Or.inl ⟨first :: body, behind, rfl, ?_⟩
        rw [List.infix_cons_iff, not_or]
        exact ⟨starts body (List.prefix_append _ _), free⟩
      · refine Or.inr ⟨?_, by rw [length, List.length_cons]⟩
        rw [List.infix_cons_iff, not_or]
        exact ⟨starts rest (List.prefix_refl _), free⟩

/-- Comments and single marks are scanned as marks. -/
theorem scan_eq_scanMark {text : List Char} (nonempty : text ≠ [])
    (mark : (scan text).1 = .comment ∨ ∃ character, (scan text).1 = .delimiter character) :
    scan text = scanMark text := by
  refine scan_cases (motive := fun text scanned =>
    (scanned.1 = .comment ∨ ∃ character, scanned.1 = .delimiter character) →
      scanned = scanMark text) ?_ ?_ ?_ ?_ ?_ ?_ nonempty mark
  · intro first rest _ mark
    simp at mark
  · intro quote rest _ mark
    rcases scanString_token quote 0 rest with kind | kind <;> simp [kind] at mark
  · intro text _ mark
    rcases scanNumeric_token text with ⟨numeral, kind | kind | ⟨unit, kind⟩⟩ <;>
      simp [kind] at mark
  · intro rest mark
    simp at mark
  · intro text _ mark
    rcases scanName_token text with kind | kind | kind | kind <;> simp [kind] at mark
  · intro first rest _ _
    rfl

theorem exists_of_scan_comment {text : List Char} (nonempty : text ≠ [])
    (comment : (scan text).1 = .comment) :
    ∃ body, text = '/' :: '*' :: body ∧ (scan text).2 = commentLength body + 2 := by
  have scanned := scan_eq_scanMark nonempty (Or.inl comment)
  rw [scanned] at comment ⊢
  fun_cases scanMark text <;> simp_all [scanMark]

theorem scan_delimiter {text : List Char} {character : Char} (nonempty : text ≠ [])
    (delimiter : (scan text).1 = .delimiter character) :
    ∃ rest, text = character :: rest ∧ (scan text).2 = 1 := by
  have scanned := scan_eq_scanMark nonempty (Or.inr ⟨character, delimiter⟩)
  rw [scanned] at delimiter ⊢
  fun_cases scanMark text <;> simp_all [scanMark]
  · exact delimiter
  · exact delimiter

end Token

namespace Text

/-- Blank text at the end of a text: nothing need end its last comment. -/
inductive Ending : List Char → Prop
  | blank {text : List Char} (blank : Blank text) : Ending text
  | unclosed {text body : List Char} (blank : Blank text) (noEnd : ¬ ['*', '/'] <:+: body) :
      Ending (text ++ '/' :: '*' :: body)

namespace Ending

theorem space {character : Char} {rest : List Char} (space : Character.isSpace character = true)
    (ending : Ending rest) : Ending (character :: rest) := by
  cases ending with
  | blank blank => exact .blank (.space space blank)
  | unclosed blank noEnd => exact .unclosed (.space space blank) noEnd

theorem comment {body rest : List Char} (noEnd : ¬ ['*', '/'] <:+: body) (ending : Ending rest) :
    Ending ('/' :: '*' :: (body ++ '*' :: '/' :: rest)) := by
  cases ending with
  | blank blank => exact .blank (.comment noEnd blank)
  | unclosed blank free =>
      have unclosed := Ending.unclosed (.comment noEnd blank) free
      simpa using unclosed

theorem stops {text : List Char} (ending : Ending text) : Stops text := by
  cases ending with
  | blank blank => simpa using blank.stops stops_nil
  | unclosed blank _ => exact blank.stops (stops_cons.mpr (by decide))

/-- The blank end of a text reads as lexemes that only separate others. -/
theorem reads {text : List Char} (ending : Ending text) :
    ∃ lexemes, (∀ lexeme ∈ lexemes, lexeme.isBlank = true) ∧ Lexeme.Reads text lexemes [] := by
  cases ending with
  | blank blank =>
      rcases blank.reads with ⟨lexemes, blank, reads⟩
      exact ⟨lexemes, blank, reads []⟩
  | @unclosed text body blank noEnd =>
      rcases blank.reads with ⟨lexemes, blank, reads⟩
      have length : Token.commentLength body = body.length := by
        rcases Token.commentLength_cases body with ⟨front, rest, rfl, _⟩ | ⟨_, length⟩
        · exact absurd ⟨front, rest, by simp⟩ noEnd
        · exact length
      have scanned : Token.scan ('/' :: '*' :: body ++ []) =
          (.comment, ('/' :: '*' :: body).length) := by
        rw [List.append_nil, List.length_cons, List.length_cons, ← length]
        rfl
      refine ⟨lexemes ++ [⟨.comment, '/' :: '*' :: body⟩], ?_,
        (reads _).append (.of_scan (by simp) scanned)⟩
      intro lexeme member
      rcases List.mem_append.mp member with before | last
      · exact blank lexeme before
      · rw [List.mem_singleton.mp last]
        rfl

end Ending

open Lexeme (ofText textOf)

/-- Blank lexemes at the front of a text spell blank text, if the text goes on after them. -/
theorem ending_of_isBlank {text : List Char} {blanks more : List Lexeme}
    (blank : ∀ lexeme ∈ blanks, lexeme.isBlank = true) (parts : ofText text = blanks ++ more) :
    Ending (textOf blanks) ∧ (more ≠ [] → Blank (textOf blanks)) := by
  induction blanks generalizing text with
  | nil => exact ⟨.blank .nil, fun _ => .nil⟩
  | cons lexeme blanks ih =>
      have nonempty : text ≠ [] := by
        rintro rfl
        simp at parts
      rw [Lexeme.ofText_eq_cons nonempty, List.cons_append, List.cons.injEq] at parts
      rcases parts with ⟨rfl, behind⟩
      have tail := ih (fun lexeme member => blank lexeme (List.mem_cons_of_mem _ member)) behind
      have kind : (Token.scan text).1 = .space ∨ (Token.scan text).1 = .comment :=
        Token.isBlank_cases (blank (Lexeme.front text) List.mem_cons_self)
      rw [Lexeme.textOf_cons, Lexeme.front]
      rcases kind with kind | kind
      · rcases List.exists_cons_of_ne_nil nonempty with ⟨first, rest, rfl⟩
        have space := Token.isSpace_of_scan nonempty kind first rfl
        rw [Token.scan_space space, List.take_succ_cons]
        exact ⟨tail.1.space space, fun goesOn => .space space (tail.2 goesOn)⟩
      · rcases Token.exists_of_scan_comment nonempty kind with ⟨source, rfl, length⟩
        rw [length] at behind ⊢
        rcases Token.commentLength_cases source with ⟨body, rest, rfl, noEnd⟩ | ⟨noEnd, whole⟩
        · have closed : ('/' :: '*' :: (body ++ '*' :: '/' :: rest)).take
              (Token.commentLength (body ++ '*' :: '/' :: rest) + 2) =
                '/' :: '*' :: (body ++ ['*', '/']) := by
            rw [Token.commentLength_of_not_infix noEnd]
            simp [List.take_append, List.take_of_length_le]
          rw [closed]
          have text : '/' :: '*' :: (body ++ ['*', '/']) ++ textOf blanks =
              '/' :: '*' :: (body ++ '*' :: '/' :: textOf blanks) := by
            simp
          rw [text]
          exact ⟨tail.1.comment noEnd, fun goesOn => .comment noEnd (tail.2 goesOn)⟩
        · rw [whole, List.drop_of_length_le (by simp), Lexeme.ofText_nil, eq_comm,
            List.append_eq_nil_iff] at behind
          rcases behind with ⟨rfl, rfl⟩
          rw [whole, List.take_of_length_le (by simp), Lexeme.textOf_nil, List.append_nil]
          exact ⟨.unclosed .nil noEnd, fun goesOn => absurd rfl goesOn⟩

end Text

end MediaQuery
