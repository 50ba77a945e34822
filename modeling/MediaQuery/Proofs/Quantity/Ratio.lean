import MediaQuery.Proofs.Cursor.Block
import MediaQuery.Proofs.Quantity.Run
import MediaQuery.Proofs.Quantity.Solid

/-!
# How far a ratio reads

A ratio tries a slash and a second number behind its first one. If they do not come next, it goes
back to the place behind the first number, also if the try has passed a token that opens a block.
So a ratio leaves the place that its first number leaves, or the one behind its second number. All
of this holds for a part of a text as well, where reading stops in front of some signs.
-/

namespace MediaQuery

/-- The tokens in front of which reading can stop. -/
inductive Limit where
  | opening
  | semicolon
  | exclamation
  | comma
  | closing (bracket : Bracket)
  deriving DecidableEq, Repr

/-- The token that a limit is; of the opening brackets only the curly one is a limit. -/
def Limit.token : Limit → Token
  | .opening => .opening .curly
  | .semicolon => .semicolon
  | .exclamation => .delimiter '!'
  | .comma => .comma
  | .closing bracket => .closing bracket

namespace Cursor

/-- The next token of a part of a text, or nothing in front of one of its limits. -/
def nextBefore (limits : List Limit) (cursor : Cursor) : Option Lexeme × Cursor :=
  match cursor.settle.rest with
  | [] => (none, cursor.settle)
  | lexeme :: rest =>
      if lexeme.token ∈ limits.map Limit.token then
        (none, cursor.settle)
      else
        (some lexeme, { cursor with opened := lexeme.token.opens, rest })

theorem nextBefore_nil (cursor : Cursor) : cursor.nextBefore [] = cursor.next := by
  unfold nextBefore next
  rcases cursor.settle.rest with _ | ⟨lexeme, rest⟩
  · rfl
  · simp

/-- A block is the part of a text that ends in front of its closing bracket. -/
theorem nextBefore_closing (bracket : Bracket) (cursor : Cursor) :
    cursor.nextBefore [.closing bracket] = cursor.nextWithin bracket := by
  unfold nextBefore nextWithin
  rcases cursor.settle.rest with _ | ⟨lexeme, rest⟩
  · rfl
  · simp [Limit.token]

end Cursor

/-- A slash and a second number that come next in a list of lexemes, and what follows them. -/
inductive IsOver : List Lexeme → Numeral → List Lexeme → Prop
  | intro {lexemes behind rest : List Lexeme} {slash spelled : List Char} {numeral : Numeral}
      (isSlash : Lexeme.skipBlank lexemes = ⟨.delimiter '/', slash⟩ :: behind)
      (isNumber : Lexeme.skipBlank behind = ⟨.number numeral, spelled⟩ :: rest) :
      IsOver lexemes numeral rest

theorem IsOver.unique {lexemes rest behind : List Lexeme} {numeral other : Numeral}
    (first : IsOver lexemes numeral rest) (second : IsOver lexemes other behind) :
    numeral = other ∧ rest = behind := by
  rcases first with ⟨isSlash, isNumber⟩
  rcases second with ⟨isSlashToo, isNumberToo⟩
  cases isSlash.symm.trans isSlashToo
  cases isNumber.symm.trans isNumberToo
  exact ⟨rfl, rfl⟩

namespace Reader

variable {Value : Type} (limits : List Limit)

/-- Reads the next token of a part of a text as a value; the end of the part is no value. -/
def ofTokenBefore (read : Lexeme → Except ReadError Value) : Reader Value :=
  fun cursor =>
    match cursor.nextBefore limits with
    | (some lexeme, after) => (read lexeme, after)
    | (none, after) => (.error .unexpectedToken, after)

/-- The number that a lexeme is. -/
def numberOf (lexeme : Lexeme) : Except ReadError Float :=
  match lexeme.token with
  | .number numeral => .ok numeral.toFloat
  | _ => .error .unexpectedToken

/-- Reads a number in a part of a text. -/
def numberBefore : Reader Float :=
  ofTokenBefore limits numberOf

/-- Accepts a lexeme that is a slash. -/
def slashOf (lexeme : Lexeme) : Except ReadError Unit :=
  if lexeme.token = .delimiter '/' then .ok () else .error .unexpectedToken

/-- Reads a slash in a part of a text. -/
def slashBefore : Reader Unit :=
  ofTokenBefore limits slashOf

/-- Reads a slash and a number after it in a part of a text. -/
def denominatorBefore : Reader Float :=
  fun cursor =>
    match slashBefore limits cursor with
    | (.ok _, after) => numberBefore limits after
    | (.error error, after) => (.error error, after)

/-- Reads a ratio in a part of a text: a number, and then it tries a slash and a second one. -/
def ratioBefore : Reader Ratio :=
  fun cursor =>
    match numberBefore limits cursor with
    | (.ok numerator, afterNumerator) =>
        let (denominator, after) := attempt (denominatorBefore limits) afterNumerator
        (.ok ⟨numerator, denominator.getD 1⟩, after)
    | (.error error, after) => (.error error, after)

section Unlimited

theorem ofTokenBefore_nil (read : Lexeme → Except ReadError Value) :
    ofTokenBefore [] read = ofToken read := by
  funext cursor
  unfold ofTokenBefore ofToken
  rcases next : cursor.next with ⟨_ | lexeme, after⟩ <;> simp only [cursor.nextBefore_nil, next]

theorem numberBefore_nil : numberBefore [] = number :=
  ofTokenBefore_nil _

theorem denominatorBefore_nil : denominatorBefore [] = denominator := by
  funext cursor
  unfold denominatorBefore denominator slashBefore
  rw [ofTokenBefore_nil, numberBefore_nil, ofToken]
  rcases cursor.next with ⟨_ | lexeme, after⟩
  · rfl
  · by_cases isSlash : lexeme.token = .delimiter '/' <;> simp [slashOf, isSlash]

theorem ratioBefore_nil : ratioBefore [] = ratio := by
  funext cursor
  unfold ratioBefore ratio attempt
  rw [numberBefore_nil, denominatorBefore_nil]
  rcases number cursor with ⟨error | numerator, afterNumerator⟩
  · rfl
  · dsimp only
    rcases denominator afterNumerator with ⟨error | value, after⟩ <;> rfl

end Unlimited

section Cases

variable {limits}

/-- The next token is read as a value, if it is one. No value is one of the limits. -/
theorem ofTokenBefore_cases {read : Lexeme → Except ReadError Value}
    (refuses : ∀ limit ∈ limits, ∀ text value, read ⟨limit.token, text⟩ ≠ .ok value)
    (cursor : Cursor) :
    (∃ lexeme rest value, cursor.settle.rest = lexeme :: rest ∧ read lexeme = .ok value ∧
        ofTokenBefore limits read cursor =
          (.ok value, { cursor with opened := lexeme.token.opens, rest })) ∨
      (∀ lexeme ∈ cursor.settle.rest.head?, ∀ value, read lexeme ≠ .ok value) ∧
        ∃ error after, ofTokenBefore limits read cursor = (.error error, after) := by
  unfold ofTokenBefore Cursor.nextBefore
  rcases cursor.settle.rest with _ | ⟨lexeme, rest⟩
  · exact Or.inr ⟨by simp, _, _, rfl⟩
  · by_cases stops : lexeme.token ∈ limits.map Limit.token
    · right
      rcases List.mem_map.mp stops with ⟨limit, member, same⟩
      have noValue : ∀ value, read lexeme ≠ .ok value := by
        have refused := refuses limit member lexeme.text
        rwa [same] at refused
      simp only [if_pos stops]
      exact ⟨by simpa using noValue, _, _, rfl⟩
    · simp only [if_neg stops]
      rcases found : read lexeme with error | value
      · exact Or.inr ⟨by simp [found], error, _, rfl⟩
      · exact Or.inl ⟨lexeme, rest, value, rfl, found, rfl⟩

variable (limits) (cursor : Cursor)

/-- A number is read if it is the next token, whatever the limits are. -/
theorem numberBefore_cases :
    (∃ numeral spelled rest, cursor.settle.rest = ⟨.number numeral, spelled⟩ :: rest ∧
        numberBefore limits cursor =
          (.ok numeral.toFloat, { cursor with opened := none, rest })) ∨
      (∀ numeral spelled rest, cursor.settle.rest ≠ ⟨.number numeral, spelled⟩ :: rest) ∧
        ∃ error after, numberBefore limits cursor = (.error error, after) := by
  have refuses : ∀ limit ∈ limits, ∀ text value, numberOf ⟨limit.token, text⟩ ≠ .ok value := by
    intro limit _ text value
    cases limit <;> exact fun isNumber => nomatch isNumber
  rcases ofTokenBefore_cases refuses cursor with
    ⟨⟨token, spelled⟩, rest, value, ahead, isNumber, read⟩ | ⟨noNumber, failed⟩
  · left
    cases token with
    | number numeral =>
        cases isNumber
        exact ⟨numeral, spelled, rest, ahead, read⟩
    | _ => cases isNumber
  · right
    refine ⟨fun numeral spelled rest ahead => ?_, failed⟩
    rw [ahead] at noNumber
    exact noNumber _ rfl _ rfl

theorem slashBefore_cases :
    (∃ slash rest, cursor.settle.rest = ⟨.delimiter '/', slash⟩ :: rest ∧
        slashBefore limits cursor = (.ok (), { cursor with opened := none, rest })) ∨
      (∀ slash rest, cursor.settle.rest ≠ ⟨.delimiter '/', slash⟩ :: rest) ∧
        ∃ error after, slashBefore limits cursor = (.error error, after) := by
  have refuses : ∀ limit ∈ limits, ∀ text value, slashOf ⟨limit.token, text⟩ ≠ .ok value := by
    intro limit _ text value
    cases limit <;> exact fun isSlash => nomatch isSlash
  rcases ofTokenBefore_cases refuses cursor with
    ⟨⟨token, slash⟩, rest, value, ahead, isSlash, read⟩ | ⟨noSlash, failed⟩
  · left
    have same : token = .delimiter '/' := by
      by_contra other
      simp [slashOf, other] at isSlash
    subst same
    exact ⟨slash, rest, ahead, read⟩
  · right
    refine ⟨fun slash rest ahead => ?_, failed⟩
    rw [ahead] at noSlash
    exact noSlash _ rfl () rfl

theorem opened_of_numberBefore {numerator : Float} {after : Cursor}
    (read : numberBefore limits cursor = (.ok numerator, after)) : after.opened = none := by
  rcases numberBefore_cases limits cursor with ⟨_, _, _, _, found⟩ | ⟨_, _, _, failed⟩
  · rw [found] at read
    cases read
    rfl
  · rw [failed] at read
    cases read

theorem denominatorBefore_cases (passed : cursor.opened = none) :
    (∃ numeral rest, IsOver cursor.rest numeral rest ∧
        denominatorBefore limits cursor =
          (.ok numeral.toFloat, { cursor with opened := none, rest })) ∨
      (∀ numeral rest, ¬ IsOver cursor.rest numeral rest) ∧
        ∃ error after, denominatorBefore limits cursor = (.error error, after) := by
  unfold denominatorBefore
  rcases slashBefore_cases limits cursor with
    ⟨slash, behind, isSlash, read⟩ | ⟨noSlash, error, after, failed⟩
  · rw [cursor.settle_rest_of_opened passed] at isSlash
    rw [read]
    rcases numberBefore_cases limits { cursor with opened := none, rest := behind } with
      ⟨numeral, spelled, rest, isNumber, read⟩ | ⟨noNumber, error, after, failed⟩
    · exact Or.inl ⟨numeral, rest, .intro isSlash isNumber, read⟩
    · right
      refine ⟨?_, error, after, failed⟩
      rintro numeral rest ⟨otherSlash, isNumber⟩
      cases isSlash.symm.trans otherSlash
      exact noNumber _ _ _ isNumber
  · rw [cursor.settle_rest_of_opened passed] at noSlash
    right
    rw [failed]
    refine ⟨?_, error, after, rfl⟩
    rintro numeral rest ⟨isSlash, _⟩
    exact noSlash _ _ isSlash

end Cases

/--
What a ratio is read as, and the place after it: behind the second number if a slash and a number
come next after the first, and where the first number leaves it otherwise.
-/
inductive ReadsRatio (cursor : Cursor) : Except ReadError Ratio × Cursor → Prop
  | paired {numerator : Float} {after : Cursor} {numeral : Numeral} {rest : List Lexeme}
      (read : numberBefore limits cursor = (.ok numerator, after))
      (isOver : IsOver after.rest numeral rest) :
      ReadsRatio cursor (.ok ⟨numerator, numeral.toFloat⟩, { after with opened := none, rest })
  | alone {numerator : Float} {after : Cursor}
      (read : numberBefore limits cursor = (.ok numerator, after))
      (single : ∀ numeral rest, ¬ IsOver after.rest numeral rest) :
      ReadsRatio cursor (.ok ⟨numerator, 1⟩, after)
  | failed {error : ReadError} {after : Cursor}
      (read : numberBefore limits cursor = (.error error, after)) :
      ReadsRatio cursor (.error error, after)

theorem readsRatio_ratioBefore (cursor : Cursor) :
    ReadsRatio limits cursor (ratioBefore limits cursor) := by
  unfold ratioBefore attempt
  rcases read : numberBefore limits cursor with ⟨error | numerator, after⟩
  · exact .failed read
  · have passed := opened_of_numberBefore limits cursor read
    rcases denominatorBefore_cases limits after passed with
      ⟨numeral, rest, isOver, readToo⟩ | ⟨single, error, beyond, failed⟩
    · simp only [readToo]
      exact .paired read isOver
    · simp only [failed]
      exact .alone read single

theorem ReadsRatio.unique {cursor : Cursor} {left right : Except ReadError Ratio × Cursor}
    (first : ReadsRatio limits cursor left) (second : ReadsRatio limits cursor right) :
    left = right := by
  cases first with
  | paired read isOver =>
      cases second with
      | paired readToo isOverToo =>
          cases read.symm.trans readToo
          rcases isOver.unique isOverToo with ⟨rfl, rfl⟩
          rfl
      | alone readToo single =>
          cases read.symm.trans readToo
          exact absurd isOver (single _ _)
      | failed readToo => cases read.symm.trans readToo
  | alone read single =>
      cases second with
      | paired readToo isOver =>
          cases read.symm.trans readToo
          exact absurd isOver (single _ _)
      | alone readToo singleToo =>
          cases read.symm.trans readToo
          rfl
      | failed readToo => cases read.symm.trans readToo
  | failed read =>
      cases second with
      | paired readToo isOver => cases read.symm.trans readToo
      | alone readToo single => cases read.symm.trans readToo
      | failed readToo =>
          cases read.symm.trans readToo
          rfl

/--
From every place, also within a part of a text, a ratio is read exactly where a number is, and with
that number in front. A slash and a number that come next are read with it. In every other case the
number stands over one, and the place is the one that the number leaves.
-/
theorem ratioBefore_eq_iff (cursor : Cursor) :
    (∀ outcome, ratioBefore limits cursor = outcome ↔ ReadsRatio limits cursor outcome) ∧
      (ratioBefore limits cursor).1.map Ratio.numerator = (numberBefore limits cursor).1 ∧
      numberBefore [] = number ∧ ratioBefore [] = ratio := by
  have reads := readsRatio_ratioBefore limits cursor
  refine ⟨fun outcome => ⟨?_, reads.unique limits⟩, ?_, numberBefore_nil, ratioBefore_nil⟩
  · rintro rfl
    exact reads
  · generalize ratioBefore limits cursor = outcome at reads
    cases reads with
    | paired read isOver => rw [read]; rfl
    | alone read single => rw [read]; rfl
    | failed read => rw [read]; rfl

/-- The function that a slash touches is still ahead, and so is its content. -/
example : (ratio (Cursor.start "1/f(2) 3")).2 = (number (Cursor.start "1/f(2) 3")).2 := by
  decide

end Reader

end MediaQuery
