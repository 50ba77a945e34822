import MediaQuery.Proofs.Lexeme.Truncation

/-!
# How a numeral is written

The grammar of numerals: a sign, digits with a point before or among them, and an exponent, where
the sign and the exponent may be missing. What is scanned at the front of a text is written that
way, and what is written that way is scanned as a whole, in front of every text that cannot go on
with it.
-/

namespace MediaQuery

namespace Numeral

/-- One decimal digit or more. -/
structure IsDigits (text : List Char) : Prop where
  nonempty : text ≠ []
  isDigit : ∀ character ∈ text, character.isDigit = true

/-- The sign of a number that is negative or not, if it has one. -/
inductive IsSign : Bool → List Char → Prop
  | absent : IsSign false []
  | plus : IsSign false ['+']
  | minus : IsSign true ['-']

/-- The whole digits and the fraction digits of a number, with a point between them. -/
inductive IsUnsigned : List Char → List Char → List Char → Prop
  | whole {digits : List Char} (whole : IsDigits digits) : IsUnsigned digits [] digits
  | both {digits places : List Char} (whole : IsDigits digits) (fraction : IsDigits places) :
      IsUnsigned digits places (digits ++ '.' :: places)
  | fraction {places : List Char} (fraction : IsDigits places) :
      IsUnsigned [] places ('.' :: places)

/-- The integer that a sign and digits write. -/
def signed (negative : Bool) (digits : List Char) : Int :=
  if negative then -ofDigits (digits.map digitValue) else ofDigits (digits.map digitValue)

/-- The exponent of a number, if it has one. -/
inductive IsExponent : Option Int → List Char → Prop
  | absent : IsExponent none []
  | present {marker : Char} {negative : Bool} {sign digits : List Char}
      (marked : marker = 'e' ∨ marker = 'E') (isSign : IsSign negative sign)
      (isDigits : IsDigits digits) :
      IsExponent (some (signed negative digits)) (marker :: (sign ++ digits))

/-- How a numeral is written. -/
inductive Spells : List Char → Numeral → Prop
  | parts {negative : Bool} {scale : Option Int} {sign whole fraction digits exponent : List Char}
      (isSign : IsSign negative sign) (isUnsigned : IsUnsigned whole fraction digits)
      (isExponent : IsExponent scale exponent) :
      Spells (sign ++ (digits ++ exponent))
        ⟨negative, whole.map digitValue, fraction.map digitValue, scale⟩

theorem digitValue_lt {character : Char} (digit : character.isDigit = true) :
    digitValue character < 10 := by
  simp only [Char.isDigit, Bool.and_eq_true, decide_eq_true_eq] at digit
  have last : character.toNat ≤ 57 := digit.2
  unfold digitValue
  have first : '0'.toNat = 48 := rfl
  omega

/-- Each digit of a numeral that is written is a decimal digit. -/
theorem Spells.digit_lt {text : List Char} {numeral : Numeral} (spells : Spells text numeral) :
    ∀ digit ∈ numeral.whole ++ numeral.fraction, digit < 10 := by
  rcases spells with @⟨_, _, _, whole, fraction, _, _, _, isUnsigned, _⟩
  have decimal : ∀ character ∈ whole ++ fraction, character.isDigit = true := by
    intro character member
    cases isUnsigned with
    | whole digits =>
        rw [List.append_nil] at member
        exact digits.isDigit character member
    | both digits places =>
        exact (List.mem_append.mp member).elim (digits.isDigit character) (places.isDigit character)
    | fraction places => exact places.isDigit character member
  intro digit member
  rw [← List.map_append] at member
  rcases List.mem_map.mp member with ⟨character, isIn, rfl⟩
  exact digitValue_lt (decimal character isIn)

/-- A text that does not go on with a numeral in front of it. -/
structure Ends (after : List Char) : Prop where
  noDigit : ∀ first ∈ after.head?, first.isDigit = false
  noPoint : after.head? ≠ some '.'
  noExponent : scanExponent after = (none, 0)

theorem ends_of_stops {after : List Char} (stops : Text.Stops after) : Ends after where
  noDigit := fun first front => Character.isDigit_of_stops (stops first front)
  noPoint := fun front =>
    (Character.ne_of_stops (stops '.' front) (by decide) : '.' ≠ '.') rfl
  noExponent := @scanExponent_append [] after stops

/-- A fraction with the point in front of it, or nothing where there is none. -/
def pointed (fraction : List Char) : List Char :=
  if fraction.isEmpty then [] else '.' :: fraction

theorem length_pointed (text : List Char) :
    (pointed (fractionDigits text)).length = fractionLength text := by
  unfold pointed fractionLength
  split
  · rfl
  · rw [List.length_cons, Nat.add_comm]

theorem isUnsigned_iff {whole fraction digits : List Char} :
    IsUnsigned whole fraction digits ↔
      ((∀ character ∈ whole, character.isDigit = true) ∧
        (∀ character ∈ fraction, character.isDigit = true) ∧ (whole ≠ [] ∨ fraction ≠ [])) ∧
      digits = whole ++ pointed fraction := by
  constructor
  · rintro (whole | ⟨whole, fraction⟩ | fraction)
    · exact ⟨⟨whole.isDigit, by simp, Or.inl whole.nonempty⟩, by simp [pointed]⟩
    · exact ⟨⟨whole.isDigit, fraction.isDigit, Or.inl whole.nonempty⟩,
        by simp [pointed, fraction.nonempty]⟩
    · exact ⟨⟨by simp, fraction.isDigit, Or.inr fraction.nonempty⟩,
        by simp [pointed, fraction.nonempty]⟩
  · rintro ⟨⟨wholeDigits, fractionDigits, nonempty⟩, rfl⟩
    by_cases noFraction : fraction = []
    · subst noFraction
      have nonempty : whole ≠ [] := by simpa using nonempty
      simpa [pointed] using IsUnsigned.whole ⟨nonempty, wholeDigits⟩
    · have fractionPart : IsDigits fraction := ⟨noFraction, fractionDigits⟩
      by_cases noWhole : whole = []
      · subst noWhole
        simpa [pointed, noFraction] using IsUnsigned.fraction fractionPart
      · simpa [pointed, noFraction] using IsUnsigned.both ⟨noWhole, wholeDigits⟩ fractionPart

section Soundness

variable (text : List Char)

theorem isSign_take : IsSign (startsNegative text) (text.take (signLength text)) := by
  fun_cases signLength text with
  | case1 => exact .plus
  | case2 => exact .minus
  | case3 _ _ noMinus =>
      have nonnegative : startsNegative text = false := by
        cases text with
        | nil => rfl
        | cons first rest =>
            rw [startsNegative_cons]
            simpa using noMinus
      rw [nonnegative]
      exact .absent

theorem isDigit_of_mem_wholeDigits : ∀ character ∈ wholeDigits text, character.isDigit = true :=
  fun _ member => List.mem_takeWhile_imp member

theorem isDigit_of_mem_fractionDigits :
    ∀ character ∈ fractionDigits text, character.isDigit = true := by
  fun_cases fractionDigits text with
  | case1 rest => exact fun _ member => List.mem_takeWhile_imp member
  | case2 => simp

theorem take_wholeDigits :
    (text.drop (signLength text)).take (wholeDigits text).length = wholeDigits text :=
  (List.prefix_iff_eq_take.mp (List.takeWhile_prefix Char.isDigit)).symm

theorem take_fractionLength : text.take (fractionLength text) = pointed (fractionDigits text) := by
  unfold fractionLength pointed
  split
  · rfl
  · rename_i present
    fun_cases fractionDigits text with
    | case1 rest =>
        rw [Nat.add_comm, List.take_succ_cons]
        congr 1
        exact (List.prefix_iff_eq_take.mp (List.takeWhile_prefix Char.isDigit)).symm
    | case2 _ other =>
        rw [fractionDigits.eq_2 text other] at present
        exact absurd rfl present

theorem isExponent_take :
    IsExponent (scanExponent text).1 (text.take (scanExponent text).2) := by
  cases text with
  | nil => exact .absent
  | cons marker rest =>
      rw [scanExponent_cons]
      split
      · rename_i present
        simp only [Bool.and_eq_true, Bool.or_eq_true, beq_iff_eq, Bool.not_eq_true',
          List.isEmpty_eq_false_iff] at present
        rw [Nat.add_assoc, Nat.add_comm, List.take_succ_cons, List.take_add, take_wholeDigits]
        exact .present present.1 (isSign_take rest)
          ⟨present.2, isDigit_of_mem_wholeDigits rest⟩
      · exact .absent

/-- The numeral at the front of a text is written as the grammar has it. -/
theorem spells_scan (starts : starts text = true) :
    Spells (text.take (scan text).2) (scan text).1 := by
  have unsigned : IsUnsigned (wholeDigits text) (fractionDigits (afterWhole text))
      (wholeDigits text ++ pointed (fractionDigits (afterWhole text))) :=
    isUnsigned_iff.mpr ⟨⟨isDigit_of_mem_wholeDigits text,
      isDigit_of_mem_fractionDigits (afterWhole text), (starts_iff text).mp starts⟩, rfl⟩
  have parts : text.take (scan text).2 =
      text.take (signLength text) ++
        ((wholeDigits text ++ pointed (fractionDigits (afterWhole text))) ++
          (afterFraction text).take (scanExponent (afterFraction text)).2) := by
    rw [scan_eq, List.take_add, List.take_add, List.take_add, take_wholeDigits,
      show text.drop (signLength text + (wholeDigits text).length) = afterWhole text from rfl,
      take_fractionLength, ← List.drop_drop,
      show text.drop (signLength text + (wholeDigits text).length) = afterWhole text from rfl]
    simp [afterFraction]
  rw [parts, scan_eq]
  exact .parts (isSign_take text) unsigned (isExponent_take (afterFraction text))

end Soundness

section Completeness

variable {rest after : List Char}

theorem startsUnsigned_of_isDigit {first : Char} (digit : first.isDigit = true)
    (rest : List Char) : startsUnsigned (first :: rest) = true := by
  have noPoint : first ≠ '.' := by
    rintro rfl
    exact absurd digit (by decide)
  rw [startsUnsigned_cons, if_neg noPoint, digit]

theorem IsDigits.startsUnsigned {digits : List Char} (isDigits : IsDigits digits)
    (after : List Char) : startsUnsigned (digits ++ after) = true := by
  rcases List.exists_cons_of_ne_nil isDigits.nonempty with ⟨first, others, rfl⟩
  exact startsUnsigned_of_isDigit (isDigits.isDigit first (by simp)) (others ++ after)

theorem IsUnsigned.startsUnsigned {whole fraction digits : List Char}
    (isUnsigned : IsUnsigned whole fraction digits) (after : List Char) :
    startsUnsigned (digits ++ after) = true := by
  rcases isUnsigned with whole | ⟨whole, _⟩ | fraction
  · exact whole.startsUnsigned after
  · rw [List.append_assoc]
    exact whole.startsUnsigned _
  · rcases List.exists_cons_of_ne_nil fraction.nonempty with ⟨first, others, rfl⟩
    simpa [startsUnsigned_cons] using fraction.isDigit first (by simp)

theorem IsSign.signLength_append {negative : Bool} {sign : List Char}
    (isSign : IsSign negative sign) (starts : startsUnsigned rest = true) :
    signLength (sign ++ rest) = sign.length ∧ startsNegative (sign ++ rest) = negative := by
  cases isSign with
  | absent =>
      cases rest with
      | nil => exact ⟨rfl, rfl⟩
      | cons first rest =>
          have noSign : ¬ (first = '+' ∨ first = '-') := by
            rintro (rfl | rfl) <;> simp [startsUnsigned_cons, Char.isDigit] at starts
          rw [not_or] at noSign
          simp [signLength_cons, startsNegative_cons, noSign]
  | plus => exact ⟨rfl, rfl⟩
  | minus => exact ⟨rfl, rfl⟩

/-- A run of digits is taken whole in front of a text that starts with no digit. -/
theorem takeWhile_digits {digits : List Char}
    (isDigit : ∀ character ∈ digits, character.isDigit = true)
    (noDigit : ∀ first ∈ after.head?, first.isDigit = false) :
    (digits ++ after).takeWhile Char.isDigit = digits := by
  rw [Text.takeWhile_append noDigit, List.takeWhile_eq_self_iff]
  exact isDigit

theorem fractionDigits_pointed {fraction : List Char}
    (isDigit : ∀ character ∈ fraction, character.isDigit = true)
    (noDigit : ∀ first ∈ after.head?, first.isDigit = false) (noPoint : after.head? ≠ some '.') :
    fractionDigits (pointed fraction ++ after) = fraction := by
  unfold pointed
  split
  · rename_i nothing
    rw [List.isEmpty_iff.mp nothing, List.nil_append]
    apply fractionDigits.eq_2
    rintro rest rfl
    exact noPoint rfl
  · exact takeWhile_digits isDigit noDigit

theorem IsExponent.scanExponent_append {scale : Option Int} {exponent : List Char}
    (isExponent : IsExponent scale exponent) (ends : Ends after) :
    scanExponent (exponent ++ after) = (scale, exponent.length) := by
  cases isExponent with
  | absent => exact ends.noExponent
  | @present marker negative sign digits marked isSign isDigits =>
      rcases isSign.signLength_append (isDigits.startsUnsigned after) with ⟨length, negative⟩
      have whole : wholeDigits (sign ++ (digits ++ after)) = digits := by
        rw [wholeDigits, length, List.drop_left, takeWhile_digits isDigits.isDigit ends.noDigit]
      have marked : (marker == 'e' || marker == 'E') = true := by simpa using marked
      rw [List.cons_append, List.append_assoc, scanExponent_cons, whole, length, negative, marked]
      simp [isDigits.nonempty, signed]
      omega

/-- Neither an exponent nor what follows a numeral starts with a digit or a point. -/
theorem IsExponent.head?_append {scale : Option Int} {exponent : List Char}
    (isExponent : IsExponent scale exponent) (ends : Ends after) :
    (∀ first ∈ (exponent ++ after).head?, first.isDigit = false) ∧
      (exponent ++ after).head? ≠ some '.' := by
  cases isExponent with
  | absent => exact ⟨ends.noDigit, ends.noPoint⟩
  | present marked _ _ =>
      rcases marked with rfl | rfl <;>
        · simp only [List.cons_append, List.head?_cons, Option.mem_some_iff, forall_eq', ne_eq]
          decide

/-- A numeral is scanned as a whole in front of a text that does not go on with it. -/
theorem Spells.scan_append {text : List Char} {numeral : Numeral} (spells : Spells text numeral)
    (ends : Ends after) :
    starts (text ++ after) = true ∧ scan (text ++ after) = (numeral, text.length) := by
  rcases spells with @⟨negative, scale, sign, whole, fraction, digits, exponent, isSign,
    isUnsigned, isExponent⟩
  rcases isExponent.head?_append ends with ⟨noDigit, noPoint⟩
  have starts := isUnsigned.startsUnsigned (exponent ++ after)
  rcases isSign.signLength_append starts with ⟨length, sameSign⟩
  rcases isUnsigned_iff.mp isUnsigned with ⟨⟨wholeIsDigit, fractionIsDigit, _⟩, rfl⟩
  have noDigitBehind : ∀ first ∈ (pointed fraction ++ (exponent ++ after)).head?,
      first.isDigit = false := by
    unfold pointed
    split
    · exact noDigit
    · simp only [List.cons_append, List.head?_cons, Option.mem_some_iff, forall_eq']
      decide
  rw [List.append_assoc] at length sameSign starts
  have wholePart : wholeDigits (sign ++ (whole ++ (pointed fraction ++ (exponent ++ after)))) =
      whole := by
    rw [wholeDigits, length, List.drop_left, takeWhile_digits wholeIsDigit noDigitBehind]
  have behindWhole : afterWhole (sign ++ (whole ++ (pointed fraction ++ (exponent ++ after)))) =
      pointed fraction ++ (exponent ++ after) := by
    rw [afterWhole, length, wholePart, ← List.drop_drop, List.drop_left, List.drop_left]
  have fractionPart := fractionDigits_pointed fractionIsDigit noDigit noPoint
  have fractionSize := length_pointed (pointed fraction ++ (exponent ++ after))
  rw [fractionPart] at fractionSize
  have behindFraction :
      afterFraction (sign ++ (whole ++ (pointed fraction ++ (exponent ++ after)))) =
        exponent ++ after := by
    rw [afterFraction, behindWhole, ← fractionSize, List.drop_left]
  have sameText : sign ++ (whole ++ pointed fraction ++ exponent) ++ after =
      sign ++ (whole ++ (pointed fraction ++ (exponent ++ after))) := by
    simp
  rw [sameText]
  constructor
  · rw [Numeral.starts, length, List.drop_left]
    exact starts
  · rw [scan_eq, sameSign, length, wholePart, behindWhole, fractionPart, ← fractionSize,
      behindFraction, isExponent.scanExponent_append ends]
    simp [Nat.add_assoc]

end Completeness

end Numeral

end MediaQuery
