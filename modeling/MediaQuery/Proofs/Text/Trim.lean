import Mathlib.Data.List.DropRight
import MediaQuery.Text.Basic
import MediaQuery.Text.Character

/-!
# White space around a text

What trimming leaves of a text, and when it leaves all of it. The spaces that
separate tokens are white space, but not all white space separates tokens.
-/

namespace MediaQuery

namespace Character

theorem isWhiteSpace_of_isSpace {character : Char} (space : isSpace character = true) :
    Text.isWhiteSpace character = true := by
  have cases : character = ' ' ∨ character = '\t' ∨ character = '\n' ∨ character = '\r' ∨
      character = '\x0c' := by
    simpa [isSpace, isNewline, or_assoc] using space
  rcases cases with rfl | rfl | rfl | rfl | rfl <;> decide

end Character

namespace Text

section RightEnd

variable {Item : Type} {belongs : Item → Bool} {left right : List Item}

theorem rdropWhile_append_of_exists (stays : ∃ item ∈ right, belongs item = false) :
    (left ++ right).rdropWhile belongs = left ++ right.rdropWhile belongs := by
  rcases stays with ⟨item, member, other⟩
  have remains : right.reverse.dropWhile belongs ≠ [] := by
    intro nothing
    have all := List.dropWhile_eq_nil_iff.mp nothing item (List.mem_reverse.mpr member)
    rw [all] at other
    exact absurd other (by decide)
  rw [List.rdropWhile, List.rdropWhile, List.reverse_append, List.dropWhile_append,
    if_neg (by simpa using remains), List.reverse_append, List.reverse_reverse]

theorem rdropWhile_append_of_forall (goes : ∀ item ∈ right, belongs item = true) :
    (left ++ right).rdropWhile belongs = left.rdropWhile belongs := by
  have all : ∀ item ∈ right.reverse, belongs item = true := by simpa using goes
  rw [List.rdropWhile, List.rdropWhile, List.reverse_append, List.dropWhile_append_of_pos all]

theorem getLast?_rdropWhile_append (stays : ∃ item ∈ right, belongs item = false) :
    ((left ++ right).rdropWhile belongs).getLast? = (right.rdropWhile belongs).getLast? := by
  have remains : right.rdropWhile belongs ≠ [] := by
    intro nothing
    rcases stays with ⟨item, member, other⟩
    rw [List.rdropWhile_eq_nil_iff.mp nothing item member] at other
    exact absurd other (by decide)
  rw [rdropWhile_append_of_exists stays, List.getLast?_append_of_ne_nil _ remains]

end RightEnd

/-- A text with no white space around it. -/
structure IsTrimmed (text : List Char) : Prop where
  front : ∀ character ∈ text.head?, isWhiteSpace character = false
  back : ∀ character ∈ text.getLast?, isWhiteSpace character = false

theorem trim_eq_trimEnd {text : List Char}
    (front : ∀ character ∈ text.head?, isWhiteSpace character = false) :
    trim text = trimEnd text := by
  match text with
  | [] => rfl
  | first :: rest =>
      have black : isWhiteSpace first = false := front first rfl
      simp [trim, black]

/-- Where only white space that separates tokens is at the end, no other is taken away. -/
theorem trimEnd_eq_rdropWhile {text : List Char}
    (edge : ∀ character ∈ (text.rdropWhile Character.isSpace).getLast?,
      isWhiteSpace character = false) : trimEnd text = text.rdropWhile Character.isSpace := by
  have parts := List.rdropWhile_append_rtakeWhile (p := Character.isSpace) (l := text)
  have white : ∀ character ∈ text.rtakeWhile Character.isSpace, isWhiteSpace character = true :=
    fun character member => Character.isWhiteSpace_of_isSpace (List.mem_rtakeWhile_imp member)
  calc trimEnd text
      = trimEnd (text.rdropWhile Character.isSpace ++ text.rtakeWhile Character.isSpace) := by
        rw [parts]
    _ = trimEnd (text.rdropWhile Character.isSpace) := rdropWhile_append_of_forall white
    _ = text.rdropWhile Character.isSpace := by
        apply List.rdropWhile_eq_self_iff.mpr
        intro remains
        have black := edge _ (by rw [List.getLast?_eq_some_getLast remains]; rfl)
        simpa using black

theorem exists_black_of_edge {text : List Char}
    (edge : ∀ character ∈ (text.rdropWhile Character.isSpace).getLast?,
      isWhiteSpace character = false)
    (stays : ∃ character ∈ text, Character.isSpace character = false) :
    ∃ character ∈ text, isWhiteSpace character = false := by
  have remains : text.rdropWhile Character.isSpace ≠ [] := by
    intro nothing
    rcases stays with ⟨character, member, other⟩
    rw [List.rdropWhile_eq_nil_iff.mp nothing character member] at other
    exact absurd other (by decide)
  refine ⟨_, (List.rdropWhile_prefix _ _).subset (List.getLast_mem remains), edge _ ?_⟩
  exact List.getLast?_eq_some_getLast remains

theorem trim_isPrefix (text : List Char) : trim text <+: text.dropWhile isWhiteSpace :=
  List.rdropWhile_prefix isWhiteSpace _

theorem trim_ne_nil {text : List Char}
    (black : ∃ character ∈ text, isWhiteSpace character = false) : trim text ≠ [] := by
  intro nothing
  have white : ∀ character ∈ text.dropWhile isWhiteSpace, isWhiteSpace character = true :=
    List.rdropWhile_eq_nil_iff.mp nothing
  rcases black with ⟨character, member, black⟩
  rw [← List.takeWhile_append_dropWhile (p := isWhiteSpace) (l := text), List.mem_append] at member
  have whiteToo : isWhiteSpace character = true := by
    rcases member with front | behind
    · exact List.mem_takeWhile_imp front
    · exact white character behind
  rw [whiteToo] at black
  exact absurd black (by decide)

theorem trim_infix (text : List Char) : trim text <:+: text :=
  (trim_isPrefix text).isInfix.trans (List.dropWhile_suffix isWhiteSpace).isInfix

/-- Trimming leaves no white space around a text. -/
theorem isTrimmed_trim (text : List Char) : IsTrimmed (trim text) where
  front := by
    intro character member
    rcases trim_isPrefix text with ⟨behind, whole⟩
    have front := List.head?_dropWhile_not isWhiteSpace text
    rw [← whole, List.head?_append, Option.mem_def.mp member] at front
    exact front
  back := by
    intro character member
    have remains : trim text ≠ [] := by
      intro nothing
      simp [nothing] at member
    have last := List.rdropWhile_last_not isWhiteSpace (text.dropWhile isWhiteSpace) remains
    rw [List.getLast?_eq_some_getLast remains, Option.mem_some_iff] at member
    subst member
    exact eq_false_of_ne_true last

theorem trimEnd_append {text spaces : List Char} (nonempty : text ≠ [])
    (back : ∀ character ∈ text.getLast?, isWhiteSpace character = false)
    (white : ∀ character ∈ spaces, isWhiteSpace character = true) :
    trimEnd (text ++ spaces) = text := by
  have whiteReversed : ∀ character ∈ spaces.reverse, isWhiteSpace character = true := by
    simpa using white
  rcases List.eq_nil_or_concat text |>.resolve_left nonempty with ⟨front, last, rfl⟩
  have lastBlack : isWhiteSpace last = false := back last (by simp)
  rw [trimEnd, List.reverse_append, List.dropWhile_append_of_pos whiteReversed]
  simp [lastBlack]

/-- White space behind a trimmed text is what trimming takes away. -/
theorem trim_append {text spaces : List Char} (nonempty : text ≠ []) (trimmed : IsTrimmed text)
    (white : ∀ character ∈ spaces, isWhiteSpace character = true) :
    trim (text ++ spaces) = text := by
  rcases List.exists_cons_of_ne_nil nonempty with ⟨first, rest, rfl⟩
  have firstBlack : isWhiteSpace first = false := trimmed.front first (by simp)
  have whole : (first :: rest ++ spaces).dropWhile isWhiteSpace = first :: rest ++ spaces := by
    simp [firstBlack]
  rw [trim, whole, trimEnd_append nonempty trimmed.back white]

end Text

end MediaQuery
