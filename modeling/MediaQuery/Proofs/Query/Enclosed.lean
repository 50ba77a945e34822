import Mathlib.Data.List.DropRight
import MediaQuery.Proofs.Query.Block

/-!
# Closed queries

What is known of the blocks of a text that closes all that it opens: their lexemes
are read the same from their text alone, and what is left of them without the
white space around it is a body.
-/

namespace MediaQuery

open Text (Stops)
open Token (Apart)

/--
Whether a text has no escapes and closes all that it opens: each of its strings
ends with its quote, each comment and address has its end, and no bracket is open
behind it.
-/
def Text.isClosed (text : List Char) : Bool :=
  !text.contains '\\' && (Lexeme.ofText text).all Lexeme.isClosed &&
    (Lexeme.nestAll [] (Lexeme.ofText text)).isEmpty

/-- Whether a lexeme is a space. -/
def Lexeme.isSpace (lexeme : Lexeme) : Bool :=
  decide (lexeme.token = .space)

/-- Lexemes that are read from their own text and can stand between round brackets. -/
structure Enclosed (lexemes : List Lexeme) : Prop where
  self : Lexeme.ofText (Lexeme.textOf lexemes) = lexemes
  plain : '\\' ∉ Lexeme.textOf lexemes
  noComma : ',' ∉ Lexeme.textOf lexemes
  white : ∀ character ∈ Lexeme.textOf lexemes,
    Text.isWhiteSpace character = true → Character.isSpace character = true
  closed : ∀ lexeme ∈ lexemes, lexeme.isClosed = true
  fills : Lexeme.Fills .round lexemes

namespace Enclosed

/-- What follows lexemes that close what they open is enclosed itself. -/
theorem of_append {front back : List Lexeme} (enclosed : Enclosed (front ++ back))
    (level : Lexeme.nestAll [.round] front = [.round]) : Enclosed back where
  self := Lexeme.ofText_textOf_of_append enclosed.self
  plain := by
    have plain := enclosed.plain
    rw [Lexeme.textOf_append, List.mem_append, not_or] at plain
    exact plain.2
  noComma := by
    have noComma := enclosed.noComma
    rw [Lexeme.textOf_append, List.mem_append, not_or] at noComma
    exact noComma.2
  white := fun character member => enclosed.white character (by
    rw [Lexeme.textOf_append]
    exact List.mem_append_right _ member)
  closed := fun lexeme member => enclosed.closed lexeme (List.mem_append_right _ member)
  fills := enclosed.fills.of_append_left level

theorem skipBlank {lexemes : List Lexeme} (enclosed : Enclosed lexemes) :
    Enclosed (Lexeme.skipBlank lexemes) := by
  have parts := List.takeWhile_append_dropWhile (p := Lexeme.isBlank) (l := lexemes)
  rw [← parts] at enclosed
  exact enclosed.of_append (Lexeme.nestAll_of_isBlank (fun lexeme => List.mem_takeWhile_imp) _)

variable {lexemes : List Lexeme} {lexeme : Lexeme}

theorem mem_textOf (member : lexeme ∈ lexemes) {character : Char}
    (inside : character ∈ lexeme.text) : character ∈ Lexeme.textOf lexemes :=
  List.mem_flatMap.mpr ⟨lexeme, member, inside⟩

theorem isWhiteSpace_eq_false (enclosed : Enclosed lexemes) (member : lexeme ∈ lexemes)
    {character : Char} (inside : character ∈ lexeme.text)
    (noSpace : Character.isSpace character = false) : Text.isWhiteSpace character = false := by
  by_contra white
  have space := enclosed.white character (mem_textOf member inside) (by simpa using white)
  rw [noSpace] at space
  exact absurd space (by decide)

theorem mem_ofText (enclosed : Enclosed lexemes) (member : lexeme ∈ lexemes) :
    lexeme ∈ Lexeme.ofText (Lexeme.textOf lexemes) := by
  rwa [enclosed.self]

theorem isWhiteSpace_getLast? (enclosed : Enclosed lexemes) (member : lexeme ∈ lexemes)
    (other : lexeme.token ≠ .space) :
    ∀ character ∈ lexeme.text.getLast?, Text.isWhiteSpace character = false := by
  intro character last
  apply enclosed.isWhiteSpace_eq_false member (List.mem_of_getLast? last)
  exact Lexeme.isSpace_getLast?_of_mem enclosed.plain (enclosed.mem_ofText member)
    (enclosed.closed lexeme member) other character last

theorem isWhiteSpace_head? (enclosed : Enclosed lexemes) (member : lexeme ∈ lexemes)
    (other : lexeme.token ≠ .space) :
    ∀ character ∈ lexeme.text.head?, Text.isWhiteSpace character = false := by
  intro character front
  apply enclosed.isWhiteSpace_eq_false member (List.mem_of_head? front)
  rcases Lexeme.exists_cons_of_mem (enclosed.mem_ofText member) other with
    ⟨first, rest, spelled, noSpace⟩
  have same : first = character := by simpa [spelled] using front
  exact same ▸ noSpace

theorem text_ne_nil (enclosed : Enclosed lexemes) (member : lexeme ∈ lexemes) :
    lexeme.text ≠ [] :=
  Lexeme.text_ne_nil_of_mem_ofText (enclosed.mem_ofText member)

/-- Lexemes with no space around them spell a trimmed text. -/
theorem isTrimmed (enclosed : Enclosed lexemes) (nonempty : lexemes ≠ [])
    (front : ∀ lexeme ∈ lexemes.head?, lexeme.token ≠ .space)
    (back : ∀ lexeme ∈ lexemes.getLast?, lexeme.token ≠ .space) :
    Text.IsTrimmed (Lexeme.textOf lexemes) where
  front := by
    rcases List.exists_cons_of_ne_nil nonempty with ⟨first, rest, rfl⟩
    have among : first ∈ first :: rest := by simp
    have spelled := enclosed.text_ne_nil among
    rw [Lexeme.textOf_cons, List.head?_append_of_ne_nil _ spelled]
    exact enclosed.isWhiteSpace_head? among (front first rfl)
  back := by
    rcases (List.eq_nil_or_concat' lexemes).resolve_left nonempty with ⟨init, last, rfl⟩
    have among : last ∈ init ++ [last] := by simp
    have spelled := enclosed.text_ne_nil among
    rw [Lexeme.textOf_append, Lexeme.textOf_cons, Lexeme.textOf_nil, List.append_nil,
      List.getLast?_append_of_ne_nil _ spelled]
    exact enclosed.isWhiteSpace_getLast? among (back last (by simp))

theorem isSpace_of_mem_textOf {front spaces : List Lexeme} (enclosed : Enclosed (front ++ spaces))
    (behind : ∀ lexeme ∈ spaces, lexeme.token = .space) :
    ∀ character ∈ Lexeme.textOf spaces, Character.isSpace character = true := by
  intro character inside
  rcases List.mem_flatMap.mp inside with ⟨lexeme, member, spelled⟩
  have among : lexeme ∈ front ++ spaces := List.mem_append_right _ member
  exact Lexeme.isSpace_of_mem (enclosed.mem_ofText among) (behind lexeme member) character spelled

/-- What is left without the spaces at the end is enclosed itself. -/
theorem of_append_spaces {front spaces : List Lexeme} (enclosed : Enclosed (front ++ spaces))
    (behind : ∀ lexeme ∈ spaces, lexeme.token = .space) : Enclosed front where
  self := by
    have reads : Lexeme.Reads (Lexeme.textOf front) front (Lexeme.textOf spaces) :=
      @Lexeme.Reads.of_append _ [] _ _ enclosed.self
    have apart := Text.apart_of_spaces (enclosed.isSpace_of_mem_textOf behind)
    have plain := enclosed.plain
    rw [Lexeme.textOf_append, List.mem_append, not_or] at plain
    exact (reads.congr plain.1 apart Text.stops_nil fun lexeme member =>
      enclosed.closed lexeme (List.mem_append_left _ member)).ofText_eq
  plain := by
    have plain := enclosed.plain
    rw [Lexeme.textOf_append, List.mem_append, not_or] at plain
    exact plain.1
  noComma := by
    have noComma := enclosed.noComma
    rw [Lexeme.textOf_append, List.mem_append, not_or] at noComma
    exact noComma.1
  white := fun character member => enclosed.white character (by
    rw [Lexeme.textOf_append]
    exact List.mem_append_left _ member)
  closed := fun lexeme member => enclosed.closed lexeme (List.mem_append_left _ member)
  fills := enclosed.fills.of_append_blank fun lexeme member => by
    rw [Lexeme.isBlank, behind lexeme member]
    rfl

/-- Enclosed lexemes without blanks in front and without spaces behind spell a body. -/
theorem body (enclosed : Enclosed lexemes) (nonempty : lexemes ≠ [])
    (front : ∀ lexeme ∈ lexemes.head?, lexeme.isBlank = false)
    (back : ∀ lexeme ∈ lexemes.getLast?, lexeme.token ≠ .space) :
    Body (Lexeme.textOf lexemes) where
  plain := enclosed.plain
  noComma := enclosed.noComma
  nonempty := by
    intro none
    have self := enclosed.self
    rw [none] at self
    exact nonempty self.symm
  trimmed := by
    apply enclosed.isTrimmed nonempty _ back
    intro lexeme member space
    have solid := front lexeme member
    rw [Lexeme.isBlank, space] at solid
    exact absurd solid (by decide)
  solid := by
    rw [enclosed.self]
    exact front
  closed := by
    rw [enclosed.self]
    exact enclosed.closed
  fills := by
    rw [enclosed.self]
    exact enclosed.fills

/-- Enclosed lexemes that start with no blank spell a body and spaces behind it. -/
theorem exists_body (enclosed : Enclosed lexemes) (nonempty : lexemes ≠ [])
    (front : ∀ lexeme ∈ lexemes.head?, lexeme.isBlank = false) :
    ∃ body spaces, lexemes = Lexeme.ofText body ++ spaces ∧
      (∀ lexeme ∈ spaces, lexeme.isBlank = true) ∧ Body body ∧
        Text.trim (Lexeme.textOf lexemes) = body := by
  have parts := @List.rdropWhile_append_rtakeWhile _ Lexeme.isSpace lexemes
  have behind : ∀ lexeme ∈ lexemes.rtakeWhile Lexeme.isSpace, lexeme.token = .space := by
    intro lexeme member
    simpa [Lexeme.isSpace] using List.mem_rtakeWhile_imp member
  have remains : lexemes.rdropWhile Lexeme.isSpace ≠ [] := by
    intro none
    rcases List.exists_cons_of_ne_nil nonempty with ⟨first, rest, rfl⟩
    have space := List.rdropWhile_eq_nil_iff.mp none first (by simp)
    have solid := front first rfl
    rw [Lexeme.isBlank, of_decide_eq_true space] at solid
    exact absurd solid (by decide)
  have back : ∀ lexeme ∈ (lexemes.rdropWhile Lexeme.isSpace).getLast?, lexeme.token ≠ .space := by
    intro lexeme member
    have last := List.rdropWhile_last_not Lexeme.isSpace lexemes remains
    rw [List.getLast?_eq_some_getLast remains, Option.mem_some_iff] at member
    rw [member] at last
    simpa [Lexeme.isSpace] using last
  have solid : ∀ lexeme ∈ (lexemes.rdropWhile Lexeme.isSpace).head?, lexeme.isBlank = false := by
    intro lexeme member
    apply front
    rw [← parts, List.head?_append_of_ne_nil _ remains]
    exact member
  generalize lexemes.rdropWhile Lexeme.isSpace = value at *
  generalize lexemes.rtakeWhile Lexeme.isSpace = spaces at *
  subst parts
  have kept := enclosed.of_append_spaces behind
  have isBody := kept.body remains solid back
  refine ⟨Lexeme.textOf value, spaces, ?_, ?_, isBody, ?_⟩
  · rw [kept.self]
  · intro lexeme member
    rw [Lexeme.isBlank, behind lexeme member]
    rfl
  · rw [Lexeme.textOf_append]
    exact Text.trim_append isBody.nonempty isBody.trimmed fun character member =>
      Character.isWhiteSpace_of_isSpace (enclosed.isSpace_of_mem_textOf behind character member)

end Enclosed

end MediaQuery
