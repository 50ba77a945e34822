import MediaQuery.Proofs.Lexeme.Case
import MediaQuery.Proofs.Lexeme.Spelling

/-!
# Words, brackets and blanks

The lexemes that a query is written with: words, the brackets around a test, the
colon in it, and the spaces and comments in between. Each reads as itself in front
of whatever may follow it in a query.
-/

namespace MediaQuery

open Text (Stops)

namespace Character

theorem isDigit_of_isNameStart {character : Char} (start : isNameStart character = true) :
    character.isDigit = false := by
  by_contra digit
  have bounds : 48 ≤ character.toNat ∧ character.toNat ≤ 57 := by
    have digit : character.isDigit = true := by simpa using digit
    simpa [Char.isDigit, UInt32.le_iff_toNat_le] using digit
  have whole : character = Char.ofNat (48 + (character.toNat - 48)) := by
    rw [Nat.add_sub_cancel' bounds.1, Char.ofNat_toNat]
  have noStart : ∀ index : Fin 10, isNameStart (Char.ofNat (48 + index)) = false := by decide
  rw [whole, noStart ⟨character.toNat - 48, by omega⟩] at start
  exact absurd start (by decide)

theorem ne_of_isNameStart {character other : Char} (start : isNameStart character = true)
    (noStart : isNameStart other = false) : character ≠ other := by
  rintro rfl
  rw [start] at noStart
  exact absurd noStart (by decide)

@[simp]
theorem isNameStart_shown (character : Char) :
    isNameStart (shown character) = isNameStart character := by
  unfold shown
  split
  · rename_i null
    rw [beq_iff_eq.mp null]
    decide
  · rfl

@[simp]
theorem isNamePart_shown (character : Char) :
    isNamePart (shown character) = isNamePart character := by
  unfold shown
  split
  · rename_i null
    rw [beq_iff_eq.mp null]
    decide
  · rfl

theorem shown_ne_null (character : Char) : shown character ≠ '\x00' := by
  unfold shown
  split
  · decide
  · rename_i visible
    simpa using visible

end Character

namespace Name

open Character

/-- A name without escapes starts with a name character, or with a hyphen and one more. -/
theorem starts_cases {text : List Char} (plain : '\\' ∉ text) (starts : Name.starts text = true) :
    (∃ first rest, text = first :: rest ∧ isNameStart first = true) ∨
      ∃ next rest, text = '-' :: next :: rest ∧ (isNameStart next = true ∨ next = '-') := by
  match text with
  | [] => exact absurd starts (by decide)
  | first :: rest =>
      have noBackslash := (List.ne_of_not_mem_cons plain).symm
      by_cases hyphen : first = '-'
      · subst hyphen
        right
        match rest with
        | [] => exact absurd starts (by decide)
        | next :: rest =>
            have noBackslash : next ≠ '\\' := by
              rintro rfl
              simp at plain
            refine ⟨next, rest, rfl, ?_⟩
            simpa [starts_hyphen noBackslash] using starts
      · left
        refine ⟨first, rest, rfl, ?_⟩
        simpa [starts_cons hyphen noBackslash] using starts

/-- A word is a name that is spelled as it is read. -/
structure IsWord (word : List Char) : Prop where
  starts : Name.starts word = true
  parts : ∀ character ∈ word, isNamePart character = true
  noNull : '\x00' ∉ word

instance (word : List Char) : Decidable (IsWord word) :=
  decidable_of_iff
    (Name.starts word = true ∧ word.all isNamePart = true ∧ word.contains '\x00' = false)
    ⟨fun ⟨starts, parts, noNull⟩ =>
      ⟨starts, List.all_eq_true.mp parts, by simpa using noNull⟩,
    fun isWord => ⟨isWord.starts, List.all_eq_true.mpr isWord.parts, by simpa using isWord.noNull⟩⟩

namespace IsWord

theorem ne_nil {word : List Char} (isWord : IsWord word) : word ≠ [] := by
  rintro rfl
  exact absurd isWord.starts (by decide)

theorem not_mem {word : List Char} (isWord : IsWord word) {character : Char}
    (noPart : isNamePart character = false) : character ∉ word := by
  intro member
  rw [isWord.parts character member] at noPart
  exact absurd noPart (by decide)

theorem plain {word : List Char} (isWord : IsWord word) : '\\' ∉ word :=
  isWord.not_mem (by decide)

theorem append {front word : List Char} (isWord : IsWord word)
    (starts : Name.starts (front ++ word) = true) (parts : front.all isNamePart = true)
    (noNull : '\x00' ∉ front) : IsWord (front ++ word) where
  starts := starts
  parts := by
    intro character member
    rcases List.mem_append.mp member with among | among
    · exact List.all_eq_true.mp parts character among
    · exact isWord.parts character among
  noNull := by
    rw [List.mem_append, not_or]
    exact ⟨noNull, isWord.noNull⟩

theorem lower {word : List Char} (isWord : IsWord word) : IsWord (Text.lower word) where
  starts := by
    rw [starts_lower]
    exact isWord.starts
  parts := by
    intro character member
    rcases List.mem_map.mp member with ⟨capital, among, rfl⟩
    rw [isNamePart_toLower]
    exact isWord.parts capital among
  noNull := by
    rw [Text.mem_lower_iff (by decide)]
    exact isWord.noNull

theorem scan_eq {word : List Char} (isWord : IsWord word) : scan word = (word, word.length) := by
  have all : word.takeWhile isNamePart = word := by
    rw [List.takeWhile_eq_self_iff]
    exact isWord.parts
  have unchanged : word.map shown = word := by
    calc word.map shown
        = word.map id := List.map_congr_left fun character member => by
          have visible : character ≠ '\x00' := fun null => isWord.noNull (null ▸ member)
          simp [shown, visible]
      _ = word := List.map_id _
  rw [scan_eq_of_plain isWord.plain, all, unchanged]

theorem numeral_starts_eq_false {word : List Char} (isWord : IsWord word) :
    Numeral.starts word = false := by
  rcases starts_cases isWord.plain isWord.starts with
    ⟨first, rest, rfl, start⟩ | ⟨next, rest, rfl, start⟩
  · have other := fun mark noStart => @ne_of_isNameStart first mark start noStart
    simp [Numeral.starts, Numeral.signLength_cons, Numeral.startsUnsigned_cons,
      other '+' (by decide), other '-' (by decide), other '.' (by decide),
      isDigit_of_isNameStart start]
  · rcases start with start | rfl
    · have other := fun mark noStart => @ne_of_isNameStart next mark start noStart
      simp [Numeral.starts, Numeral.signLength_cons, Numeral.startsUnsigned_cons,
        other '.' (by decide), isDigit_of_isNameStart start]
    · simp [Numeral.starts, Numeral.signLength_cons, Numeral.startsUnsigned_cons]

theorem startsMarkupClose_eq_false {word : List Char} (isWord : IsWord word) :
    Token.startsMarkupClose word = false := by
  have noSign : '>' ∉ word := isWord.not_mem (by decide)
  by_contra close
  rcases Token.startsMarkupClose_iff.mp (by simpa using close) with ⟨tail, rfl⟩
  simp at noSign

theorem scanName_eq {word after : List Char} (isWord : IsWord word) (stops : Stops after) :
    Token.scanName (word ++ after) = (.ident word, word.length) := by
  unfold Token.scanName
  simp only [scan_append isWord.plain stops, isWord.scan_eq, List.drop_left]
  match after with
  | [] => rfl
  | first :: rest =>
      have noBracket : first ≠ '(' := ne_of_stops (Text.stops_cons.mp stops) (by decide)
      simp [noBracket]

theorem token_eq {word after : List Char} (isWord : IsWord word) (stops : Stops after) :
    Token.scan (word ++ after) = (.ident word, word.length) := by
  have numeral := isWord.numeral_starts_eq_false
  have close := isWord.startsMarkupClose_eq_false
  have starts := isWord.starts
  have name := isWord.scanName_eq stops
  rw [← Numeral.starts_append stops] at numeral
  rw [← Token.startsMarkupClose_append stops] at close
  rw [← starts_append isWord.plain stops] at starts
  rcases List.exists_cons_of_ne_nil isWord.ne_nil with ⟨first, rest, rfl⟩
  have part := isWord.parts first (by simp)
  have noSpace : isSpace first = false := by
    by_contra space
    rw [isNamePart_of_isSpace (by simpa using space)] at part
    exact absurd part (by decide)
  have noQuote : (first == '"' || first == '\'') = false := by
    simp only [Bool.or_eq_false_iff, beq_eq_false_iff_ne]
    constructor <;>
      · rintro rfl
        exact absurd part (by decide)
  rw [List.cons_append] at numeral close starts name ⊢
  rw [Token.scan_cons, noSpace, noQuote, numeral, close, starts]
  exact name

/-- A word reads as itself in front of every text that does not go on with it. -/
theorem reads {word after : List Char} (isWord : IsWord word) (stops : Stops after) :
    Lexeme.Reads word [⟨.ident word, word⟩] after := by
  have nonempty : word ++ after ≠ [] := by simp [isWord.ne_nil]
  rw [Lexeme.Reads, Lexeme.ofText_eq_cons nonempty, isWord.token_eq stops, List.drop_left,
    Lexeme.front, isWord.token_eq stops, List.take_left]
  rfl

end IsWord

theorem isWord_of_lower {text : List Char} (isWord : IsWord (Text.lower text)) : IsWord text where
  starts := by
    rw [← starts_lower]
    exact isWord.starts
  parts := by
    intro character member
    rw [← isNamePart_toLower]
    exact isWord.parts _ (List.mem_map_of_mem member)
  noNull := by
    rw [← Text.mem_lower_iff (by decide)]
    exact isWord.noNull

theorem isWord_scan {text : List Char} (plain : '\\' ∉ text) (starts : Name.starts text = true) :
    IsWord (scan text).1 := by
  rw [scan_eq_of_plain plain]
  constructor
  · rcases starts_cases plain starts with ⟨first, rest, rfl, start⟩ | ⟨next, rest, rfl, start⟩
    · have shownStart : isNameStart (shown first) = true := by simpa using start
      have other := fun mark noStart => @ne_of_isNameStart _ mark shownStart noStart
      simp [isNamePart_of_isNameStart start,
        starts_cons (other '-' (by decide)) (other '\\' (by decide)), start]
    · have hyphen : isNamePart '-' = true := by decide
      have unchanged : shown '-' = '-' := rfl
      rcases start with start | rfl
      · have shownStart : isNameStart (shown next) = true := by simpa using start
        have visible := @ne_of_isNameStart _ '\\' shownStart (by decide)
        simp [hyphen, unchanged, isNamePart_of_isNameStart start, starts_hyphen visible, start]
      · simp [hyphen, unchanged, Name.starts]
  · intro character member
    rcases List.mem_map.mp member with ⟨original, among, rfl⟩
    rw [isNamePart_shown]
    exact List.mem_takeWhile_imp among
  · intro member
    rcases List.mem_map.mp member with ⟨original, _, null⟩
    exact shown_ne_null original null

theorem scan_ne_nil {text : List Char} (positive : 0 < (scan text).2) : (scan text).1 ≠ [] := by
  unfold scan at *
  match text with
  | [] => simp [scanFrom] at positive
  | first :: rest =>
      by_cases part : isNamePart first = true
      · simp [scanFrom_part part]
      · by_cases escaped : (first == '\\' && continuesEscape rest) = true
        · simp only [Bool.and_eq_true, beq_iff_eq] at escaped
          rcases escaped with ⟨rfl, continues⟩
          simp [scanFrom_escape continues]
        · rw [scanFrom_stop (by simpa using part) (by simpa using escaped)] at positive
          exact absurd positive (Nat.lt_irrefl 0)

/-- A name among the lexemes of a text is what a scan yields where a name starts. -/
theorem exists_scan_of_mem {text name spelled : List Char}
    (member : ⟨.ident name, spelled⟩ ∈ Lexeme.ofText text) :
    ∃ rest, rest <:+ text ∧ starts rest = true ∧ (scan rest).1 = name := by
  rcases Lexeme.exists_front_of_mem member with ⟨rest, suffix, nonempty, same⟩
  have token : (Token.scan rest).1 = .ident name := (congrArg Lexeme.token same).symm
  refine ⟨rest, suffix, ?_⟩
  refine Token.scan_cases (motive := fun text scanned => scanned.1 = .ident name →
    starts text = true ∧ (scan text).1 = name) ?_ ?_ ?_ ?_ ?_ ?_ nonempty token
  · intro first rest _ token
    simp at token
  · intro quote rest _ token
    rcases Token.scanString_token quote 0 rest with kind | kind <;> simp [kind] at token
  · intro text _ token
    rcases Token.scanNumeric_token text with ⟨numeral, kind | kind | ⟨unit, kind⟩⟩ <;>
      simp [kind] at token
  · intro rest token
    simp at token
  · intro text starts token
    rcases Token.scanName_token text with kind | kind | kind | kind <;> rw [kind] at token
    · simp at token
    · simp at token
    · simp at token
    · exact ⟨starts, Token.ident.inj token⟩
  · intro first rest _
    fun_cases Token.scanMark (first :: rest) <;> simp_all

theorem ne_nil_of_mem {text name spelled : List Char}
    (member : ⟨.ident name, spelled⟩ ∈ Lexeme.ofText text) : name ≠ [] := by
  rcases exists_scan_of_mem member with ⟨rest, _, starts, rfl⟩
  exact scan_ne_nil (scan_length_pos starts)

theorem isWord_of_mem {text name spelled : List Char} (plain : '\\' ∉ text)
    (member : ⟨.ident name, spelled⟩ ∈ Lexeme.ofText text) : IsWord name := by
  rcases exists_scan_of_mem member with ⟨rest, suffix, starts, rfl⟩
  exact isWord_scan (fun inside => plain (suffix.subset inside)) starts

end Name

namespace Token

theorem scan_space {first : Char} (space : Character.isSpace first = true) (rest : List Char) :
    scan (first :: rest) = (.space, 1) := by
  simp [scan_cons, space]

theorem scan_opening (rest : List Char) : scan ('(' :: rest) = (.opening .round, 1) :=
  rfl

theorem scan_closing (rest : List Char) : scan (')' :: rest) = (.closing .round, 1) :=
  rfl

theorem scan_colon (rest : List Char) : scan (':' :: rest) = (.colon, 1) :=
  rfl

/-- A comment ends at the first sign that ends one. -/
theorem commentLength_of_not_infix {body : List Char} (noEnd : ¬ ['*', '/'] <:+: body)
    (rest : List Char) : commentLength (body ++ '*' :: '/' :: rest) = body.length + 2 := by
  induction body with
  | nil => rfl
  | cons first body ih =>
      have later : ¬ ['*', '/'] <:+: body := fun inside => noEnd (List.infix_cons inside)
      have stays : ∀ tail, first = '*' → body ++ '*' :: '/' :: rest = '/' :: tail → False := by
        rintro tail rfl behind
        match body with
        | [] => simp at behind
        | next :: body =>
            rw [List.cons_append, List.cons.injEq] at behind
            rw [behind.1] at noEnd
            exact noEnd ⟨[], body, rfl⟩
      rw [List.cons_append, commentLength.eq_3 _ _ stays, ih later, List.length_cons]

theorem scan_comment {body : List Char} (noEnd : ¬ ['*', '/'] <:+: body) (rest : List Char) :
    scan ('/' :: '*' :: (body ++ '*' :: '/' :: rest)) = (.comment, body.length + 4) := by
  have scanned : scan ('/' :: '*' :: (body ++ '*' :: '/' :: rest)) =
      lengthen 2 (.comment, commentLength (body ++ '*' :: '/' :: rest)) := rfl
  rw [scanned, commentLength_of_not_infix noEnd]
  rfl

end Token

namespace Lexeme

variable {text : List Char} {lexeme : Lexeme}

theorem exists_front_cons_of_mem (member : lexeme ∈ ofText text) :
    ∃ first source rest, first :: source <:+ text ∧ lexeme = front (first :: source) ∧
      lexeme.text = first :: rest := by
  rcases exists_front_of_mem member with ⟨source, suffix, nonempty, same⟩
  have positive := Token.scan_length_pos nonempty
  rcases List.exists_cons_of_ne_nil nonempty with ⟨first, source, rfl⟩
  rcases Nat.exists_eq_add_of_lt positive with ⟨length, counted⟩
  refine ⟨first, source, source.take length, suffix, same, ?_⟩
  rw [same, front, counted, Nat.zero_add, List.take_succ_cons]

theorem isSpace_of_mem (member : lexeme ∈ ofText text) (space : lexeme.token = .space) :
    ∀ character ∈ lexeme.text, Character.isSpace character = true := by
  rcases exists_front_cons_of_mem member with ⟨first, source, _, _, rfl, _⟩
  have blank := Token.isSpace_of_scan (List.cons_ne_nil first source) space first (by simp)
  simp [front, Token.scan_space blank, blank]

/-- A lexeme that is no space does not start with one. -/
theorem exists_cons_of_mem (member : lexeme ∈ ofText text) (other : lexeme.token ≠ .space) :
    ∃ first rest, lexeme.text = first :: rest ∧ Character.isSpace first = false := by
  rcases exists_front_cons_of_mem member with ⟨first, source, rest, _, same, spelled⟩
  refine ⟨first, rest, spelled, ?_⟩
  by_contra space
  rw [same] at other
  exact other (congrArg Prod.fst (Token.scan_space (by simpa using space) source))

/-- Lexemes of a text without escapes that are closed end with a space only if they are one. -/
theorem isSpace_getLast?_of_mem (plain : '\\' ∉ text) (member : lexeme ∈ ofText text)
    (closed : lexeme.isClosed = true) (other : lexeme.token ≠ .space) :
    ∀ character ∈ lexeme.text.getLast?, Character.isSpace character = false := by
  intro character last
  rcases exists_front_of_mem member with ⟨rest, suffix, nonempty, rfl⟩
  have plainRest := fun inside => plain (suffix.subset inside)
  exact Token.isSpace_getLast?_scan nonempty plainRest closed other last

end Lexeme

namespace Lexeme

theorem skipBlank_append {blanks : List Lexeme} (blank : ∀ lexeme ∈ blanks, lexeme.isBlank = true)
    (rest : List Lexeme) : skipBlank (blanks ++ rest) = skipBlank rest :=
  List.dropWhile_append_of_pos blank

theorem skipBlank_cons {lexeme : Lexeme} (solid : lexeme.isBlank = false) (rest : List Lexeme) :
    skipBlank (lexeme :: rest) = lexeme :: rest := by
  simp [skipBlank, solid]

theorem skipBlank_of_isBlank {blanks : List Lexeme}
    (blank : ∀ lexeme ∈ blanks, lexeme.isBlank = true) : skipBlank blanks = [] := by
  simpa [skipBlank] using blank

theorem isBlank_head?_skipBlank (lexemes : List Lexeme) :
    ∀ lexeme ∈ (skipBlank lexemes).head?, lexeme.isBlank = false := by
  intro lexeme member
  have front := List.head?_dropWhile_not isBlank lexemes
  rw [skipBlank, Option.mem_def] at member
  rw [member] at front
  simpa using front

namespace Reads

theorem of_scan {token : Token} {text after : List Char} (nonempty : text ≠ [])
    (scanned : Token.scan (text ++ after) = (token, text.length)) :
    Reads text [⟨token, text⟩] after := by
  have whole : text ++ after ≠ [] := by simp [nonempty]
  rw [Reads, ofText_eq_cons whole, scanned, List.drop_left, front, scanned, List.take_left]
  rfl

theorem space {character : Char} (space : Character.isSpace character = true)
    (after : List Char) : Reads [character] [⟨.space, [character]⟩] after :=
  of_scan (by simp) (Token.scan_space space after)

theorem opening (after : List Char) : Reads ['('] [⟨.opening .round, ['(']⟩] after :=
  of_scan (by simp) (Token.scan_opening after)

theorem closing (after : List Char) : Reads [')'] [⟨.closing .round, [')']⟩] after :=
  of_scan (by simp) (Token.scan_closing after)

theorem colon (after : List Char) : Reads [':'] [⟨.colon, [':']⟩] after :=
  of_scan (by simp) (Token.scan_colon after)

theorem comment {body : List Char} (noEnd : ¬ ['*', '/'] <:+: body) (after : List Char) :
    Reads ('/' :: '*' :: (body ++ ['*', '/']))
      [⟨.comment, '/' :: '*' :: (body ++ ['*', '/'])⟩] after := by
  apply of_scan (by simp)
  have scanned := Token.scan_comment noEnd after
  simpa using scanned

theorem spaces {text : List Char}
    (white : ∀ character ∈ text, Character.isSpace character = true) (after : List Char) :
    Reads text (text.map fun character => ⟨.space, [character]⟩) after := by
  induction text with
  | nil => exact nil after
  | cons character rest ih =>
      exact (space (white character (by simp)) (rest ++ after)).append
        (ih fun other member => white other (List.mem_cons_of_mem _ member))

end Reads

end Lexeme

namespace Text

/-- Spaces and closed comments. -/
inductive Blank : List Char → Prop
  | nil : Blank []
  | space {character : Char} {rest : List Char} (space : Character.isSpace character = true)
      (blank : Blank rest) : Blank (character :: rest)
  | comment {body rest : List Char} (noEnd : ¬ ['*', '/'] <:+: body) (blank : Blank rest) :
      Blank ('/' :: '*' :: (body ++ '*' :: '/' :: rest))

namespace Blank

/-- Blank text reads as lexemes that only separate others. -/
theorem reads {text : List Char} (blank : Blank text) :
    ∃ lexemes, (∀ lexeme ∈ lexemes, lexeme.isBlank = true) ∧
      ∀ after, Lexeme.Reads text lexemes after := by
  induction blank with
  | nil => exact ⟨[], by simp, Lexeme.Reads.nil⟩
  | @space character rest space _ ih =>
      rcases ih with ⟨lexemes, blank, reads⟩
      refine ⟨⟨.space, [character]⟩ :: lexemes, ?_, fun after => ?_⟩
      · rintro lexeme (_ | ⟨_, later⟩)
        · rfl
        · exact blank lexeme later
      · exact (Lexeme.Reads.space space (rest ++ after)).append (reads after)
  | @comment body rest noEnd _ ih =>
      rcases ih with ⟨lexemes, blank, reads⟩
      refine ⟨⟨.comment, '/' :: '*' :: (body ++ ['*', '/'])⟩ :: lexemes, ?_, fun after => ?_⟩
      · rintro lexeme (_ | ⟨_, later⟩)
        · rfl
        · exact blank lexeme later
      · have whole := (Lexeme.Reads.comment noEnd (rest ++ after)).append (reads after)
        simpa using whole

theorem stops {text after : List Char} (blank : Blank text) (stops : Stops after) :
    Stops (text ++ after) := by
  cases blank with
  | nil => exact stops
  | space space _ => exact stops_cons.mpr (Character.isJoining_of_isSpace space)
  | comment _ _ => exact stops_cons.mpr (by decide)

/-- Blank text that is not empty keeps whatever follows it apart from what precedes it. -/
theorem stops_of_ne_nil {text : List Char} (blank : Blank text) (nonempty : text ≠ [])
    (after : List Char) : Stops (text ++ after) := by
  cases blank with
  | nil => exact absurd rfl nonempty
  | space space _ => exact stops_cons.mpr (Character.isJoining_of_isSpace space)
  | comment _ _ => exact stops_cons.mpr (by decide)

end Blank

/-- Spaces and closed comments, as they may stand between the parts of a query. -/
inductive Gap : List Char → Prop
  | nil : Gap []
  | space {character : Char} {rest : List Char} (space : Character.isSpace character = true)
      (gap : Gap rest) : Gap (character :: rest)
  | comment {body rest : List Char} (noEnd : ¬ ['*', '/'] <:+: body) (noComma : ',' ∉ body)
      (gap : Gap rest) : Gap ('/' :: '*' :: (body ++ '*' :: '/' :: rest))

namespace Gap

theorem blank {text : List Char} (gap : Gap text) : Blank text := by
  induction gap with
  | nil => exact .nil
  | space space _ ih => exact .space space ih
  | comment noEnd _ _ ih => exact .comment noEnd ih

theorem reads {text : List Char} (gap : Gap text) :
    ∃ lexemes, (∀ lexeme ∈ lexemes, lexeme.isBlank = true) ∧
      ∀ after, Lexeme.Reads text lexemes after :=
  gap.blank.reads

theorem stops {text after : List Char} (gap : Gap text) (stops : Stops after) :
    Stops (text ++ after) :=
  gap.blank.stops stops

theorem stops_of_ne_nil {text : List Char} (gap : Gap text) (nonempty : text ≠ [])
    (after : List Char) : Stops (text ++ after) :=
  gap.blank.stops_of_ne_nil nonempty after

theorem noComma {text : List Char} (gap : Gap text) : ',' ∉ text := by
  induction gap with
  | nil => simp
  | space space _ ih =>
      rw [List.mem_cons]
      rintro (rfl | later)
      · exact absurd space (by decide)
      · exact ih later
  | comment _ noComma _ ih => simp [noComma, ih]

theorem of_spaces {text : List Char}
    (spaces : ∀ character ∈ text, Character.isSpace character = true) : Gap text := by
  induction text with
  | nil => exact nil
  | cons character rest ih =>
      exact space (spaces character (by simp))
        (ih fun other member => spaces other (List.mem_cons_of_mem _ member))

end Gap

end Text

end MediaQuery
