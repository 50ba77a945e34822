import Mathlib.Data.List.DropRight
import MediaQuery.Proofs.Lexeme.Replacement

/-!
# Places between lexemes

Between two lexemes of a text there is room for a comment: those in front of the place stay
what they are, and so do those behind it. The exceptions are lexemes that would take the
comment in, since they are only what they are because of what follows them.
-/

namespace MediaQuery

open Token (Apart)

namespace Lexeme

/--
Whether a lexeme would take in what is put behind it and the lexemes that follow it. A string
that a newline cuts off goes on up to the newline, and `url(` starts an unquoted address if no
quote follows it, past spaces.
-/
def takesIn (lexeme : Lexeme) (rest : List Lexeme) : Bool :=
  match lexeme.token with
  | .brokenString => rest.isEmpty
  | .function =>
      Text.lower lexeme.text == ['u', 'r', 'l', '('] &&
        rest.all fun other => other.token == .space
  | _ => false

theorem takesIn_of_brokenString {lexeme : Lexeme} (broken : lexeme.token = .brokenString) :
    lexeme.takesIn [] = true := by
  simp [takesIn, broken]

theorem takesIn_of_function {lexeme : Lexeme} {rest : List Lexeme}
    (function : lexeme.token = .function) (url : Text.lower lexeme.text = ['u', 'r', 'l', '('])
    (blank : ∀ other ∈ rest, other.token = .space) : lexeme.takesIn rest = true := by
  simpa [takesIn, function, url] using blank

/-- Lexemes of which none takes in what is put behind them. -/
def Separable (lexemes : List Lexeme) : Prop :=
  ∀ lexeme rest, lexeme :: rest <:+ lexemes → lexeme.takesIn rest = false

theorem separable_nil : Separable [] := by
  intro lexeme rest suffix
  simp at suffix

theorem separable_cons {lexeme : Lexeme} {rest : List Lexeme} :
    Separable (lexeme :: rest) ↔ lexeme.takesIn rest = false ∧ Separable rest := by
  constructor
  · intro separable
    exact ⟨separable _ _ (List.suffix_refl _),
      fun other behind suffix => separable _ _ (suffix.trans (List.suffix_cons _ _))⟩
  · rintro ⟨here, later⟩ other behind suffix
    rcases List.suffix_cons_iff.mp suffix with same | inside
    · rw [List.cons.injEq] at same
      rw [same.1, same.2]
      exact here
    · exact later other behind inside

instance decidableSeparable : (lexemes : List Lexeme) → Decidable (Separable lexemes)
  | [] => isTrue separable_nil
  | lexeme :: rest =>
      have := decidableSeparable rest
      decidable_of_iff (lexeme.takesIn rest = false ∧ Separable rest) separable_cons.symm

theorem Separable.of_suffix {lexemes others : List Lexeme} (separable : Separable lexemes)
    (suffix : others <:+ lexemes) : Separable others :=
  fun lexeme rest behind => separable lexeme rest (behind.trans suffix)

/-- Lexemes without the spaces at their end. -/
theorem exists_append_spaces (lexemes : List Lexeme) :
    ∃ kept spaces, lexemes = kept ++ spaces ∧ (∀ lexeme ∈ spaces, lexeme.token = .space) ∧
      ∀ lexeme ∈ kept.getLast?, lexeme.token ≠ .space := by
  refine ⟨lexemes.rdropWhile fun lexeme => lexeme.token == .space,
    lexemes.rtakeWhile fun lexeme => lexeme.token == .space,
    List.rdropWhile_append_rtakeWhile.symm, ?_, ?_⟩
  · intro lexeme member
    simpa using List.mem_rtakeWhile_imp member
  · intro lexeme member
    have remains : (lexemes.rdropWhile fun lexeme => lexeme.token == .space) ≠ [] := by
      intro nothing
      simp [nothing] at member
    have other := List.rdropWhile_last_not _ _ remains
    rw [List.getLast?_eq_some_getLast remains, Option.mem_some_iff] at member
    simpa [member] using other

theorem Separable.of_append_spaces {kept spaces : List Lexeme}
    (separable : Separable (kept ++ spaces)) (blank : ∀ lexeme ∈ spaces, lexeme.token = .space)
    (whole : ∀ lexeme ∈ kept.getLast?, lexeme.token ≠ .brokenString) : Separable kept := by
  rintro lexeme rest ⟨front, rfl⟩
  have kept := separable lexeme (rest ++ spaces) ⟨front, by simp⟩
  cases token : lexeme.token with
  | brokenString =>
      match rest with
      | [] => exact absurd token (whole lexeme (by simp))
      | next :: rest => simp [takesIn, token]
  | function =>
      have all : (spaces.all fun other => other.token == .space) = true := by simpa using blank
      simpa only [takesIn, token, List.all_append, all, Bool.and_true] using kept
  | _ => simp [takesIn, token]

namespace Reads

variable {text more other after : List Char} {lexemes others : List Lexeme}

theorem unique (first : Reads text lexemes after) (second : Reads text others after) :
    lexemes = others :=
  List.append_cancel_right (first.symm.trans second)

theorem ne_nil_of_separable {lexeme : Lexeme} (separable : Separable (lexeme :: lexemes))
    (broken : lexeme.token = .brokenString) (reads : Reads text lexemes after) : text ≠ [] := by
  rintro rfl
  have kept := separable _ _ (List.suffix_refl _)
  rw [reads.unique (nil _), takesIn_of_brokenString broken] at kept
  exact absurd kept (by decide)

theorem exists_solid_of_separable {lexeme : Lexeme} (separable : Separable (lexeme :: lexemes))
    (function : lexeme.token = .function) (url : Text.lower lexeme.text = ['u', 'r', 'l', '('])
    (reads : Reads text lexemes after) :
    ∃ character ∈ text, Character.isSpace character = false := by
  by_contra blank
  have white : ∀ character ∈ text, Character.isSpace character = true := by simpa using blank
  have blanks : ∀ follower ∈ lexemes, follower.token = .space := by
    intro follower member
    rw [reads.unique (spaces white _)] at member
    rcases List.mem_map.mp member with ⟨character, _, rfl⟩
    rfl
  have kept := separable _ _ (List.suffix_refl _)
  rw [takesIn_of_function function url blanks] at kept
  exact absurd kept (by decide)

/-- The first lexeme of a text stays what it is when something else comes to follow. -/
theorem scan_replace {lexeme : Lexeme} (plain : '\\' ∉ text ++ (after ++ more))
    (goesOn : more ≠ []) (apart : Apart other)
    (settled : Separable (lexeme :: lexemes) ∨
      ∃ character ∈ after, Character.isSpace character = false)
    (nonempty : text ≠ []) (reads : Reads text (lexeme :: lexemes) (after ++ more)) :
    Token.scan (text ++ (after ++ other)) = Token.scan (text ++ (after ++ more)) := by
  rcases reads.uncons with ⟨same, within, readsRest⟩
  have token : lexeme.token = (Token.scan (text ++ (after ++ more))).1 := congrArg Lexeme.token same
  have spelled : lexeme.text = text.take (Token.scan (text ++ (after ++ more))).2 := by
    rw [same, text_front_append within]
  have inside : (Token.scan (text ++ after ++ more)).2 ≤ (text ++ after).length := by
    rw [List.append_assoc, List.length_append]
    omega
  have cutOff : (Token.scan (text ++ after ++ more)).1 = .brokenString →
      (Token.scan (text ++ after ++ more)).2 < (text ++ after).length := by
    rw [List.append_assoc, ← token, List.length_append]
    intro broken
    rcases settled with separable | ⟨character, member, _⟩
    · have longer := List.length_pos_of_ne_nil (readsRest.ne_nil_of_separable separable broken)
      rw [List.length_drop] at longer
      omega
    · have longer := List.length_pos_of_mem member
      omega
  have quoted : (Token.scan (text ++ after ++ more)).1 = .function →
      Text.lower ((text ++ after).take (Token.scan (text ++ after ++ more)).2) =
          ['u', 'r', 'l', '('] →
        ∃ character ∈ (text ++ after).drop (Token.scan (text ++ after ++ more)).2,
          Character.isSpace character = false := by
    rw [List.append_assoc, ← token, List.take_append_of_le_length within, ← spelled,
      List.drop_append_of_le_length within]
    intro function url
    rcases settled with separable | ⟨character, member, solid⟩
    · rcases readsRest.exists_solid_of_separable separable function url with
        ⟨character, member, solid⟩
      exact ⟨character, List.mem_append_left _ member, solid⟩
    · exact ⟨character, List.mem_append_right _ member, solid⟩
  have scanned := Token.scan_append_replace (by simp [nonempty])
    (by rwa [List.append_assoc]) goesOn apart inside cutOff quoted
  rwa [List.append_assoc, List.append_assoc] at scanned

/--
Lexemes stay what they are when something else comes to follow. They must take nothing in,
unless a character in front of the change already ends what they could take in.
-/
theorem append_replace (plain : '\\' ∉ text ++ (after ++ more)) (goesOn : more ≠ [])
    (apart : Apart other)
    (settled : Separable lexemes ∨ ∃ character ∈ after, Character.isSpace character = false)
    (reads : Reads text lexemes (after ++ more)) : Reads text lexemes (after ++ other) := by
  induction lexemes generalizing text with
  | nil =>
      have nothing := reads.textOf_eq
      simp only [textOf_nil] at nothing
      subst nothing
      exact nil _
  | cons lexeme lexemes ih =>
      rcases reads.uncons with ⟨same, within, readsRest⟩
      have positive : 0 < (Token.scan (text ++ (after ++ more))).2 :=
        Token.scan_length_pos (by simp [goesOn])
      have nonempty : text ≠ [] := by
        rintro rfl
        rw [List.length_nil] at within
        omega
      have scanned := reads.scan_replace plain goesOn apart settled nonempty
      have plainRest :
          '\\' ∉ text.drop (Token.scan (text ++ (after ++ more))).2 ++ (after ++ more) := by
        rw [← List.drop_append_of_le_length within]
        exact fun member => plain (List.mem_of_mem_drop member)
      have settledRest := settled.imp_left fun separable =>
        separable.of_suffix (List.suffix_cons lexeme lexemes)
      have readsOther := ih plainRest settledRest readsRest
      unfold Reads at readsOther ⊢
      rw [ofText_eq_cons (by simp [nonempty]), scanned, List.cons_append,
        List.drop_append_of_le_length within, readsOther, same]
      simp only [front, scanned, List.take_append_of_le_length within]

theorem replace (plain : '\\' ∉ text ++ more) (goesOn : more ≠ []) (apart : Apart other)
    (separable : Separable lexemes) (reads : Reads text lexemes more) :
    Reads text lexemes other :=
  @append_replace text more other [] _ plain goesOn apart (Or.inl separable) reads

/-- Lexemes are the same if the text that follows ends early. -/
theorem cut (plain : '\\' ∉ text ++ (after ++ more))
    (settled : Separable lexemes ∨ ∃ character ∈ after, Character.isSpace character = false)
    (reads : Reads text lexemes (after ++ more)) : Reads text lexemes after := by
  by_cases goesOn : more = []
  · rwa [goesOn, List.append_nil] at reads
  · have ended := append_replace plain goesOn Token.apart_nil settled reads
    rwa [List.append_nil] at ended

/-- Lexemes that are followed by something are closed, or strings that a newline cuts off. -/
theorem isClosed_of_ne_nil (plain : '\\' ∉ text ++ more) (goesOn : more ≠ [])
    (reads : Reads text lexemes more) :
    ∀ lexeme ∈ lexemes, lexeme.token = .brokenString ∨ lexeme.isClosed = true := by
  induction lexemes generalizing text with
  | nil => simp
  | cons lexeme lexemes ih =>
      rcases reads.uncons with ⟨same, inside, readsRest⟩
      have plainRest : '\\' ∉ text.drop (Token.scan (text ++ more)).2 ++ more := by
        rw [← List.drop_append_of_le_length inside]
        exact fun member => plain (List.mem_of_mem_drop member)
      rintro other (_ | ⟨_, later⟩)
      · by_cases broken : (Token.scan (text ++ more)).1 = .brokenString
        · left
          rw [same]
          exact broken
        · right
          have closed := Token.isClosed_of_append plain goesOn inside broken
          rwa [same, front, List.take_append_of_le_length inside]
      · exact ih plainRest readsRest other later

end Reads

/-- A comment around a text. -/
def comment (body : List Char) : Lexeme where
  token := .comment
  text := '/' :: '*' :: (body ++ ['*', '/'])

theorem apart_comment (body after : List Char) : Apart ((comment body).text ++ after) where
  stops := Text.stops_cons.mpr (by decide)
  unquoted := rfl

/--
A place in a text without escapes, behind `lexemes` and in front of `after`, where a comment
can stand.
-/
structure Gap (lexemes : List Lexeme) (after : List Char) : Prop where
  plain : '\\' ∉ textOf lexemes ++ after
  goesOn : after ≠ []
  separable : Separable lexemes
  reads : Reads (textOf lexemes) lexemes after

namespace Gap

variable {lexemes front back : List Lexeme} {after body : List Char}

theorem iff_and : Gap lexemes after ↔ ('\\' ∉ textOf lexemes ++ after ∧ after ≠ []) ∧
    Separable lexemes ∧ ofText (textOf lexemes ++ after) = lexemes ++ ofText after :=
  ⟨fun gap => ⟨⟨gap.plain, gap.goesOn⟩, gap.separable, gap.reads⟩,
    fun ⟨⟨plain, goesOn⟩, separable, reads⟩ => ⟨plain, goesOn, separable, reads⟩⟩

instance : Decidable (Gap lexemes after) :=
  decidable_of_iff _ iff_and.symm

/-- What is in front of a place can be cut off at another one. -/
theorem of_append (gap : Gap (front ++ back) after) : Gap back after where
  plain := by
    have plain := gap.plain
    rw [textOf_append, List.append_assoc] at plain
    exact fun member => plain (List.mem_append_right _ member)
  goesOn := gap.goesOn
  separable := gap.separable.of_suffix (List.suffix_append front back)
  reads := by
    have whole : ofText (textOf (front ++ back) ++ after) = front ++ (back ++ ofText after) :=
      gap.reads.trans (List.append_assoc front back _)
    have reads := Reads.of_append whole
    rwa [textOf_ofText] at reads

/-- The lexemes in front of a place are read in front of any part of them. -/
theorem reads_front (gap : Gap (front ++ back) after) :
    Reads (textOf front) front (textOf back ++ after) := by
  have whole : ofText (textOf (front ++ back) ++ after) =
      [] ++ (front ++ (back ++ ofText after)) :=
    gap.reads.trans (List.append_assoc front back _)
  have reads := Reads.of_append whole
  rwa [textOf_append, textOf_ofText] at reads

/-- A place stays one if the text that follows ends early. -/
theorem cut {more : List Char} (gap : Gap lexemes (after ++ more)) (goesOn : after ≠ []) :
    Gap lexemes after where
  plain := by
    have plain := gap.plain
    rw [← List.append_assoc] at plain
    exact fun member => plain (List.mem_append_left _ member)
  goesOn := goesOn
  separable := gap.separable
  reads := gap.reads.cut gap.plain (Or.inl gap.separable)

theorem mem_ofText (gap : Gap lexemes after) {lexeme : Lexeme} (member : lexeme ∈ lexemes) :
    lexeme ∈ ofText (textOf lexemes ++ after) := by
  rw [gap.reads]
  exact List.mem_append_left _ member

/-- A comment put in a place is a lexeme of its own. -/
theorem ofText_comment (gap : Gap lexemes after) (noEnd : ¬ ['*', '/'] <:+: body) :
    ofText (textOf lexemes ++ ((comment body).text ++ after)) =
      lexemes ++ comment body :: ofText after := by
  have before := gap.reads.replace gap.plain gap.goesOn (apart_comment body after) gap.separable
  exact before.trans (congrArg (lexemes ++ ·) (Reads.comment noEnd after))

end Gap

end Lexeme

end MediaQuery
