import Mathlib.Data.List.Chain
import MediaQuery.Proofs.Json.Text
import MediaQuery.Proofs.Number.Grammar

/-!
# How the tokens of a JSON text are written

A token is a mark, a word, a number or a string. A text is a row of tokens with blanks in front of
them, between them and behind them. What is read as tokens is written that way. What is written that
way is read if of two neighbours one is a mark, because then no token goes on with the one before.
-/

namespace MediaQuery

namespace Json

/-- The whole digits of a number: one zero, or digits of which the first is no zero. -/
inductive IsWhole : List Char → Prop
  | zero : IsWhole ['0']
  | digits {first : Char} {rest : List Char} (nonzero : first ≠ '0')
      (isDigits : Numeral.IsDigits (first :: rest)) : IsWhole (first :: rest)

/-- The fraction digits of a number, with the point in front of them, if it has any. -/
inductive IsFraction : List Char → List Char → Prop
  | absent : IsFraction [] []
  | present {digits : List Char} (isDigits : Numeral.IsDigits digits) :
      IsFraction digits ('.' :: digits)

/-- The minus sign of a number that is negative. -/
inductive IsMinus : Bool → List Char → Prop
  | absent : IsMinus false []
  | present : IsMinus true ['-']

/-- How a number is written. -/
inductive IsNumber : List Char → Numeral → Prop
  | parts {negative : Bool} {scale : Option Int} {sign whole digits fraction exponent : List Char}
      (isMinus : IsMinus negative sign) (isWhole : IsWhole whole)
      (isFraction : IsFraction digits fraction) (isExponent : Numeral.IsExponent scale exponent) :
      IsNumber (sign ++ ((whole ++ fraction) ++ exponent))
        ⟨negative, whole.map Numeral.digitValue, digits.map Numeral.digitValue, scale⟩

/-- Text between tokens. -/
def IsBlank (text : List Char) : Prop :=
  ∀ character ∈ text, Token.isSpace character = true

namespace Token

/-- The marks, each with the token that it is. -/
def marks : List (Char × Token) :=
  [('\x7b', .openObject), ('\x7d', .closeObject), ('[', .openArray), (']', .closeArray),
    (':', .colon), (',', .comma)]

/-- The words, each with the token that it is. -/
def words : List (List Char × Token) :=
  [(['n', 'u', 'l', 'l'], .null), (['t', 'r', 'u', 'e'], .bool true),
    (['f', 'a', 'l', 's', 'e'], .bool false)]

/-- How a token is written; a string whose codes stand for no characters has no text. -/
inductive Spells : List Char → Token → Prop
  | mark {mark : Char} {token : Token} (member : (mark, token) ∈ marks) : Spells [mark] token
  | word {word : List Char} {token : Token} (member : (word, token) ∈ words) : Spells word token
  | number {text : List Char} {numeral : Numeral} (isNumber : IsNumber text numeral) :
      Spells text (.number numeral)
  | string {body text : List Char} {codes : List Nat} (isBody : IsBody body codes)
      (joins : Joins codes text) : Spells ('"' :: (body ++ ['"'])) (.string (String.ofList text))
  | broken {body : List Char} {codes : List Nat} (isBody : IsBody body codes)
      (alone : ∀ text, ¬ Joins codes text) : Spells ('"' :: (body ++ ['"'])) (.string none)

/-- A row of tokens, with blanks in front of them, between them and behind them. -/
inductive IsRow : List Char → List Token → Prop
  | blank {text : List Char} (isBlank : IsBlank text) : IsRow text []
  | token {blank spelling text : List Char} {token : Token} {tokens : List Token}
      (isBlank : IsBlank blank) (spells : Spells spelling token) (rest : IsRow text tokens) :
      IsRow (blank ++ (spelling ++ text)) (token :: tokens)

/-- Whether a token is a mark. -/
def isMark (token : Token) : Bool :=
  marks.any fun entry => entry.2 == token

end Token

section Number

variable {text : List Char} {numeral : Numeral}

theorem digitValue_eq_zero_iff {digit : Char} (isDigit : digit.isDigit = true) :
    Numeral.digitValue digit = 0 ↔ digit = '0' := by
  constructor
  · intro none
    simp only [Char.isDigit, Bool.and_eq_true, decide_eq_true_eq] at isDigit
    have least : '0'.toNat ≤ digit.toNat := isDigit.1
    have most : digit.toNat ≤ '0'.toNat := Nat.le_of_sub_eq_zero none
    exact Char.toNat_inj.mp (Nat.le_antisymm most least)
  · rintro rfl
    rfl

/-- The whole digits of a numeral are plain exactly if they are written as JSON has them. -/
theorem isWhole_iff {digits fraction : List Char} {negative : Bool} {scale : Option Int}
    (isDigits : Numeral.IsDigits digits) :
    Token.hasPlainWhole ⟨negative, digits.map Numeral.digitValue,
      fraction.map Numeral.digitValue, scale⟩ = true ↔ IsWhole digits := by
  match digits, isDigits with
  | [], isDigits => exact absurd rfl isDigits.nonempty
  | [digit], isDigits =>
      refine iff_of_true rfl ?_
      by_cases zero : digit = '0'
      · rw [zero]
        exact .zero
      · exact .digits zero isDigits
  | first :: second :: rest, isDigits =>
      have isZero := digitValue_eq_zero_iff (isDigits.isDigit first List.mem_cons_self)
      simp only [Token.hasPlainWhole, List.map_cons, bne_iff_ne, ne_eq, isZero]
      constructor
      · intro nonzero
        exact .digits nonzero isDigits
      · intro isWhole
        cases isWhole with
        | digits nonzero _ => exact nonzero

theorem IsWhole.isDigits {digits : List Char} (isWhole : IsWhole digits) :
    Numeral.IsDigits digits := by
  cases isWhole with
  | zero => exact ⟨List.cons_ne_nil _ _, List.forall_mem_singleton.mpr rfl⟩
  | digits _ isDigits => exact isDigits

theorem IsNumber.spells (isNumber : IsNumber text numeral) : Numeral.Spells text numeral := by
  rcases isNumber with ⟨isMinus, isWhole, isFraction, isExponent⟩
  refine .parts ?_ ?_ isExponent
  · cases isMinus with
    | absent => exact .absent
    | present => exact .minus
  · cases isFraction with
    | absent =>
        rw [List.append_nil]
        exact .whole isWhole.isDigits
    | present isDigits => exact .both isWhole.isDigits isDigits

theorem IsNumber.hasPlainWhole (isNumber : IsNumber text numeral) :
    Token.hasPlainWhole numeral = true := by
  rcases isNumber with ⟨_, isWhole, _, _⟩
  exact (isWhole_iff isWhole.isDigits).mpr isWhole

theorem isNumber_of_spells (spells : numeral.Spells text) (noPlus : text.head? ≠ some '+')
    (plain : Token.hasPlainWhole numeral = true) : IsNumber text numeral := by
  rcases spells with @⟨negative, scale, sign, whole, digits, _, exponent, isSign, isUnsigned,
    isExponent⟩
  have isMinus : IsMinus negative sign := by
    cases isSign with
    | absent => exact .absent
    | plus => exact absurd rfl noPlus
    | minus => exact .present
  rcases isUnsigned with isDigits | ⟨isDigits, fraction⟩ | fraction
  · have parts := IsNumber.parts isMinus ((isWhole_iff isDigits).mp plain) .absent isExponent
    rwa [List.append_nil] at parts
  · exact .parts isMinus ((isWhole_iff isDigits).mp plain) (.present fraction) isExponent
  · cases plain

end Number

namespace Token

section Scan

variable {spelling text rest : List Char} {token : Token}

/-- Whether a character starts a number. -/
def startsNumber (first : Char) : Bool :=
  first == '-' || first.isDigit

theorem startsNumber_of_isNumber {numeral : Numeral} (isNumber : IsNumber text numeral) :
    ∃ first others, text = first :: others ∧ startsNumber first = true := by
  rcases isNumber with ⟨isMinus, isWhole, _, _⟩
  cases isMinus with
  | present => exact ⟨'-', _, rfl, rfl⟩
  | absent =>
      rcases List.exists_cons_of_ne_nil isWhole.isDigits.nonempty with ⟨first, others, rfl⟩
      refine ⟨first, _, rfl, ?_⟩
      simp [startsNumber, isWhole.isDigits.isDigit first List.mem_cons_self]

theorem ne_of_startsNumber {first other : Char} (starts : startsNumber first = true)
    (noStart : startsNumber other = false) : first ≠ other := by
  rintro rfl
  rw [starts] at noStart
  cases noStart

theorem scan?_of_startsNumber {first : Char} (starts : startsNumber first = true)
    (rest : List Char) : scan? (first :: rest) = scanNumber? (first :: rest) := by
  have other := fun mark => @ne_of_startsNumber first mark starts
  -- every other kind of token has one character in front that starts no number
  unfold scan?
  split
  case h_11 _ _ _ same =>
      injection same with sameFirst sameRest
      rw [← sameFirst, ← sameRest]
      exact if_pos starts
  case h_12 same => cases same
  all_goals
    rename_i same
    injection same with sameFirst
    exact absurd sameFirst (other _ (by decide))

/-- A token is spelled with a character in front that is no space. -/
theorem Spells.front (spells : Spells spelling token) :
    ∃ first others, spelling = first :: others ∧ isSpace first = false := by
  cases spells with
  | @mark mark _ member =>
      have noSpace : ∀ entry ∈ marks, isSpace entry.1 = false := by decide
      exact ⟨mark, [], rfl, noSpace _ member⟩
  | word member =>
      have noSpace : ∀ entry ∈ words,
          ∃ first others, entry.1 = first :: others ∧ isSpace first = false := by
        simp [words, isSpace]
      exact noSpace _ member
  | number isNumber =>
      rcases startsNumber_of_isNumber isNumber with ⟨first, others, rfl, starts⟩
      refine ⟨first, others, rfl, ?_⟩
      have other := fun space => @ne_of_startsNumber first space starts
      simp [isSpace, other ' ' (by decide), other '\t' (by decide), other '\n' (by decide),
        other '\r' (by decide)]
  | string => exact ⟨'"', _, rfl, rfl⟩
  | broken => exact ⟨'"', _, rfl, rfl⟩

theorem scan?_quote {body : List Char} {codes : List Nat} (isBody : IsBody body codes)
    (rest : List Char) :
    scan? ('"' :: (body ++ ['"']) ++ rest) =
      some (.string ((textOfCodes? codes).map String.ofList), ('"' :: (body ++ ['"'])).length) := by
  have found := scanString?_of_isBody isBody rest
  rw [List.cons_append, List.append_assoc, List.singleton_append]
  change (scanString? 0 (body ++ '"' :: rest)).map _ = _
  rw [found]
  simp

/-- A token is read in front of every text that does not go on with it. -/
theorem scan?_of_spells (spells : Spells spelling token)
    (ends : ∀ numeral, token = .number numeral → Numeral.Ends rest) :
    scan? (spelling ++ rest) = some (token, spelling.length) := by
  cases spells with
  | mark member =>
      simp only [marks, List.mem_cons, Prod.mk.injEq, List.not_mem_nil, or_false] at member
      rcases member with ⟨rfl, rfl⟩ | ⟨rfl, rfl⟩ | ⟨rfl, rfl⟩ | ⟨rfl, rfl⟩ | ⟨rfl, rfl⟩ |
        ⟨rfl, rfl⟩ <;> rfl
  | word member =>
      simp only [words, List.mem_cons, Prod.mk.injEq, List.not_mem_nil, or_false] at member
      rcases member with ⟨rfl, rfl⟩ | ⟨rfl, rfl⟩ | ⟨rfl, rfl⟩ <;> rfl
  | @number _ numeral isNumber =>
      have scanned := (isNumber.spells.scan_append (ends numeral rfl)).2
      have plain := isNumber.hasPlainWhole
      rcases startsNumber_of_isNumber isNumber with ⟨first, others, rfl, starts⟩
      rw [List.cons_append] at scanned ⊢
      rw [scan?_of_startsNumber starts, scanNumber?, scanned]
      simp [plain]
  | string isBody joins =>
      rw [scan?_quote isBody, (textOfCodes?_eq_some_iff isBody).mpr joins]
      rfl
  | broken isBody alone =>
      rw [scan?_quote isBody, (textOfCodes?_eq_none_iff isBody).mpr alone]
      rfl

theorem starts_of_hasPlainWhole (plain : hasPlainWhole (Numeral.scan text).1 = true) :
    Numeral.starts text = true := by
  rw [Numeral.starts_iff]
  left
  intro noDigits
  rw [Numeral.scan_eq, hasPlainWhole, noDigits] at plain
  cases plain

theorem isNumber_of_scanNumber? {first : Char} {length : Nat} (starts : startsNumber first = true)
    (found : scanNumber? (first :: text) = some (token, length)) :
    ∃ spelling rest numeral, first :: text = spelling ++ rest ∧ spelling.length = length ∧
      token = .number numeral ∧ IsNumber spelling numeral := by
  simp only [scanNumber?] at found
  split at found
  · rename_i plain
    simp only [Option.some.injEq, Prod.mk.injEq] at found
    rcases found with ⟨rfl, rfl⟩
    have spells := Numeral.spells_scan (first :: text) (starts_of_hasPlainWhole plain)
    refine ⟨_, _, _, (List.take_append_drop _ _).symm,
      List.length_take_of_le (Numeral.scan_length_le _), rfl, ?_⟩
    refine isNumber_of_spells spells ?_ plain
    intro plus
    have noPlus := ne_of_startsNumber starts (show startsNumber '+' = false by decide)
    rw [List.head?_take] at plus
    split at plus
    · cases plus
    · exact noPlus (by simpa using plus)
  · cases found

/-- What is read as a token is the spelling of it. -/
theorem spells_of_scan? {length : Nat} (found : scan? text = some (token, length)) :
    ∃ spelling rest, text = spelling ++ rest ∧ spelling.length = length ∧
      Spells spelling token := by
  revert found
  fun_cases scan? text with
  | case7 rest =>
      rintro ⟨⟩
      exact ⟨['n', 'u', 'l', 'l'], rest, rfl, rfl, .word (by decide)⟩
  | case8 rest =>
      rintro ⟨⟩
      exact ⟨['t', 'r', 'u', 'e'], rest, rfl, rfl, .word (by decide)⟩
  | case9 rest =>
      rintro ⟨⟩
      exact ⟨['f', 'a', 'l', 's', 'e'], rest, rfl, rfl, .word (by decide)⟩
  | case10 rest =>
      intro found
      rcases Option.map_eq_some_iff.mp found with ⟨⟨codes, length⟩, foundBody, ⟨⟩⟩
      rcases isBody_of_scanString? foundBody with ⟨front, body, after, rfl, taken, rfl, isBody⟩
      rw [List.eq_nil_of_length_eq_zero taken]
      refine ⟨'"' :: (body ++ ['"']), after, by simp, by simp, ?_⟩
      cases joined : textOfCodes? codes with
      | some text => exact .string isBody ((textOfCodes?_eq_some_iff isBody).mp joined)
      | none => exact .broken isBody ((textOfCodes?_eq_none_iff isBody).mp joined)
  | case11 first rest _ _ _ _ _ _ _ _ _ _ starts =>
      intro found
      rcases isNumber_of_scanNumber? starts found with
        ⟨spelling, after, numeral, same, length, rfl, isNumber⟩
      exact ⟨spelling, after, same, length, .number isNumber⟩
  | case12 | case13 => rintro ⟨⟩
  | _ rest =>
      rintro ⟨⟩
      exact ⟨[_], rest, rfl, rfl, .mark (by decide)⟩

end Scan

section Row

variable {text : List Char} {tokens : List Token}

theorem IsRow.cons_space {first : Char} (space : isSpace first = true) (row : IsRow text tokens) :
    IsRow (first :: text) tokens := by
  cases row with
  | blank isBlank => exact .blank (List.forall_mem_cons.mpr ⟨space, isBlank⟩)
  | token isBlank spells rest =>
      exact .token (List.forall_mem_cons.mpr ⟨space, isBlank⟩) spells rest

theorem isRow_of_ofTextFrom? {skip : Nat} (found : ofTextFrom? skip text = some tokens) :
    IsRow (text.drop skip) tokens := by
  fun_induction ofTextFrom? skip text generalizing tokens with
  | case1 skip =>
      cases found
      rw [List.drop_nil]
      exact .blank (List.forall_mem_nil _)
  | case2 skip first rest ih => exact ih found
  | case3 first rest space ih => exact (ih found).cons_space space
  | case4 first rest noSpace ih =>
      rcases Option.bind_eq_some_iff.mp found with ⟨⟨token, length⟩, scanned, goesOn⟩
      rcases Option.map_eq_some_iff.mp goesOn with ⟨others, foundRest, rfl⟩
      rcases spells_of_scan? scanned with ⟨spelling, after, same, taken, spells⟩
      have row := ih length foundRest
      have behind : rest.drop (length - 1) = after := by
        have positive : 0 < length := by
          rcases spells.front with ⟨_, _, rfl, _⟩
          rw [← taken, List.length_cons]
          exact Nat.succ_pos _
        have dropped : (first :: rest).drop length = after := by
          rw [same, ← taken, List.drop_left]
        rwa [← Nat.succ_pred_eq_of_pos positive, List.drop_succ_cons] at dropped
      rw [behind] at row
      have whole := IsRow.token (List.forall_mem_nil _) spells row
      rwa [List.nil_append, ← same] at whole

/-- What is read as tokens is a row of them. -/
theorem isRow_of_ofText? (found : ofText? text = some tokens) : IsRow text tokens :=
  isRow_of_ofTextFrom? found

/-- Of two neighbours one is a mark, so that they need no blank between them. -/
def Apart (left right : Token) : Prop :=
  left.isMark = true ∨ right.isMark = true

theorem Spells.stops_of_isMark {spelling : List Char} {token : Token}
    (spells : Spells spelling token) (marked : token.isMark = true) (after : List Char) :
    Text.Stops (spelling ++ after) := by
  cases spells with
  | @mark mark _ member =>
      have stops : ∀ entry ∈ marks, Character.isJoining entry.1 = false := by decide
      exact (@Text.stops_cons mark after).mpr (stops (mark, token) member)
  | word member =>
      have noMark : ∀ entry ∈ words, entry.2.isMark = false := by decide
      rw [noMark (spelling, token) member] at marked
      cases marked
  | number => cases marked
  | string => cases marked
  | broken => cases marked

theorem isJoining_of_isSpace {character : Char} (space : isSpace character = true) :
    Character.isJoining character = false := by
  simp only [isSpace, Bool.or_eq_true, beq_iff_eq] at space
  rcases space with ((rfl | rfl) | rfl) | rfl <;> decide

/-- A row stops what is in front of it if it starts with a mark or has no token. -/
theorem IsRow.stops (row : IsRow text tokens)
    (marked : ∀ token ∈ tokens.head?, token.isMark = true) : Text.Stops text := by
  cases row with
  | blank isBlank =>
      exact fun first front => isJoining_of_isSpace (isBlank first (List.mem_of_mem_head? front))
  | @token blank _ _ _ _ isBlank spells rest =>
      cases blank with
      | nil => exact spells.stops_of_isMark (marked _ rfl) _
      | cons first blank =>
          exact Text.stops_cons.mpr (isJoining_of_isSpace (isBlank first List.mem_cons_self))

theorem ofTextFrom?_blank {blank : List Char} (isBlank : IsBlank blank) (text : List Char) :
    ofTextFrom? 0 (blank ++ text) = ofTextFrom? 0 text := by
  induction blank with
  | nil => rfl
  | cons first blank ih =>
      rcases List.forall_mem_cons.mp isBlank with ⟨space, isBlank⟩
      rw [List.cons_append, ofTextFrom?, if_pos space]
      exact ih isBlank

theorem ofTextFrom?_skip (taken text : List Char) :
    ofTextFrom? taken.length (taken ++ text) = ofTextFrom? 0 text := by
  induction taken with
  | nil => rfl
  | cons first taken ih => exact ih

/-- A row of tokens is read if of two neighbours one is a mark. -/
theorem ofText?_of_isRow (row : IsRow text tokens) (apart : tokens.IsChain Apart) :
    ofText? text = some tokens := by
  induction row with
  | @blank text isBlank =>
      have read := ofTextFrom?_blank isBlank []
      rwa [List.append_nil] at read
  | @token blank spelling text token tokens isBlank spells rest ih =>
      have ends : ∀ numeral, token = .number numeral → Numeral.Ends text := by
        rintro numeral rfl
        have marked : ∀ next ∈ tokens.head?, next.isMark = true := fun next front =>
          ((List.isChain_cons.mp apart).1 next front).resolve_left Bool.false_ne_true
        exact Numeral.ends_of_stops (rest.stops marked)
      have scanned := scan?_of_spells spells ends
      have read := ih (List.isChain_cons.mp apart).2
      rcases spells.front with ⟨first, others, rfl, noSpace⟩
      rw [List.cons_append] at scanned
      rw [ofText?, ofTextFrom?_blank isBlank, List.cons_append, ofTextFrom?, noSpace,
        if_neg Bool.false_ne_true, scanned, Option.bind_some, List.length_cons]
      dsimp only
      rw [Nat.add_sub_cancel, ofTextFrom?_skip]
      exact congrArg _ read

end Row

end Token

end Json

end MediaQuery
