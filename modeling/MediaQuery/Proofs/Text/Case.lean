import MediaQuery.Proofs.Text.Trim

/-!
# Letter case of texts

Lowering changes the twenty-six capital letters and no other character, so what
is asked of a character that is no letter has the same answer in both cases.
-/

namespace MediaQuery

namespace Character

theorem toLower_of_not_isUpper {character : Char} (small : character.isUpper = false) :
    character.toLower = character :=
  dif_neg (of_decide_eq_false small)

theorem exists_letter_of_isUpper {character : Char} (capital : character.isUpper = true) :
    ∃ index : Fin 26, character = Char.ofNat (65 + index) ∧
      character.toLower = Char.ofNat (97 + index) := by
  have bounds : 65 ≤ character.toNat ∧ character.toNat ≤ 90 := of_decide_eq_true capital
  have whole : character = Char.ofNat (65 + (character.toNat - 65)) := by
    rw [Nat.add_sub_cancel' bounds.1, Char.ofNat_toNat]
  have lowered : ∀ index : Fin 26,
      (Char.ofNat (65 + index)).toLower = Char.ofNat (97 + index) := by decide
  refine ⟨⟨character.toNat - 65, by omega⟩, whole, ?_⟩
  rw [← lowered]
  exact congrArg Char.toLower whole

/-- Lowering changes the twenty-six capital letters and nothing else. -/
theorem toLower_cases (character : Char) :
    character.toLower = character ∨
      ∃ index : Fin 26, character = Char.ofNat (65 + index) ∧
        character.toLower = Char.ofNat (97 + index) := by
  by_cases capital : character.isUpper = true
  · exact Or.inr (exists_letter_of_isUpper capital)
  · exact Or.inl (toLower_of_not_isUpper (by simpa using capital))

@[simp]
theorem isUpper_toLower (character : Char) : character.toLower.isUpper = false := by
  by_cases capital : character.isUpper = true
  · rcases exists_letter_of_isUpper capital with ⟨index, _, small⟩
    have letters : ∀ index : Fin 26, (Char.ofNat (97 + index)).isUpper = false := by decide
    rw [small, letters]
  · have small : character.isUpper = false := by simpa using capital
    rw [toLower_of_not_isUpper small, small]

/-- What holds of every character beside itself and of every letter in its two cases. -/
theorem toLower_induction {motive : Char → Char → Prop}
    (same : ∀ character, motive character character)
    (letter : ∀ index : Fin 26, motive (Char.ofNat (65 + index)) (Char.ofNat (97 + index)))
    (character : Char) : motive character character.toLower := by
  rcases toLower_cases character with unchanged | ⟨index, capital, small⟩
  · rw [unchanged]
    exact same character
  · rw [small, capital]
    exact letter index

@[simp]
theorem toLower_toLower (character : Char) : character.toLower.toLower = character.toLower := by
  rcases toLower_cases character with unchanged | ⟨index, _, small⟩
  · rw [unchanged, unchanged]
  · have letters : ∀ index : Fin 26,
        (Char.ofNat (97 + index)).toLower = Char.ofNat (97 + index) := by decide
    rw [small, letters]

/-- Lowering neither makes nor loses a character that is no letter. -/
@[simp]
theorem toLower_eq_iff {mark : Char} (noLetter : mark.isAlpha = false) (character : Char) :
    character.toLower = mark ↔ character = mark := by
  rcases toLower_cases character with unchanged | ⟨index, capital, small⟩
  · rw [unchanged]
  · have letters : ∀ index : Fin 26, (Char.ofNat (65 + index)).isAlpha = true ∧
        (Char.ofNat (97 + index)).isAlpha = true := by decide
    constructor
    · intro same
      rw [← same, small, (letters index).2] at noLetter
      exact absurd noLetter (by decide)
    · intro same
      rw [← same, capital, (letters index).1] at noLetter
      exact absurd noLetter (by decide)

@[simp]
theorem toLower_beq {mark : Char} (noLetter : mark.isAlpha = false) (character : Char) :
    (character.toLower == mark) = (character == mark) := by
  rw [Bool.eq_iff_iff, beq_iff_eq, beq_iff_eq, toLower_eq_iff noLetter]

@[simp]
theorem isNameStart_toLower (character : Char) :
    isNameStart character.toLower = isNameStart character :=
  toLower_induction (motive := fun capital small => isNameStart small = isNameStart capital)
    (fun _ => rfl) (by decide) character

@[simp]
theorem isNamePart_toLower (character : Char) :
    isNamePart character.toLower = isNamePart character :=
  toLower_induction (motive := fun capital small => isNamePart small = isNamePart capital)
    (fun _ => rfl) (by decide) character

@[simp]
theorem isDigit_toLower (character : Char) : character.toLower.isDigit = character.isDigit :=
  toLower_induction (motive := fun capital small => small.isDigit = capital.isDigit)
    (fun _ => rfl) (by decide) character

theorem toLower_of_isDigit {character : Char} (digit : character.isDigit = true) :
    character.toLower = character :=
  toLower_induction (motive := fun capital small => capital.isDigit = true → small = capital)
    (fun _ _ => rfl) (by decide) character digit

@[simp]
theorem isHexDigit_toLower (character : Char) :
    isHexDigit character.toLower = isHexDigit character :=
  toLower_induction (motive := fun capital small => isHexDigit small = isHexDigit capital)
    (fun _ => rfl) (by decide) character

@[simp]
theorem hexValue_toLower (character : Char) : hexValue character.toLower = hexValue character :=
  toLower_induction (motive := fun capital small => hexValue small = hexValue capital)
    (fun _ => rfl) (by decide) character

@[simp]
theorem isNewline_toLower (character : Char) :
    isNewline character.toLower = isNewline character :=
  toLower_induction (motive := fun capital small => isNewline small = isNewline capital)
    (fun _ => rfl) (by decide) character

@[simp]
theorem isSpace_toLower (character : Char) : isSpace character.toLower = isSpace character :=
  toLower_induction (motive := fun capital small => isSpace small = isSpace capital)
    (fun _ => rfl) (by decide) character

@[simp]
theorem isUnprintable_toLower (character : Char) :
    isUnprintable character.toLower = isUnprintable character :=
  toLower_induction (motive := fun capital small => isUnprintable small = isUnprintable capital)
    (fun _ => rfl) (by decide) character

@[simp]
theorem isWhiteSpace_toLower (character : Char) :
    Text.isWhiteSpace character.toLower = Text.isWhiteSpace character :=
  toLower_induction
    (motive := fun capital small => Text.isWhiteSpace small = Text.isWhiteSpace capital)
    (fun _ => rfl) (by decide) character

@[simp]
theorem utf8Size_toLower (character : Char) : character.toLower.utf8Size = character.utf8Size :=
  toLower_induction (motive := fun capital small => small.utf8Size = capital.utf8Size)
    (fun _ => rfl) (by decide) character

@[simp]
theorem toLower_shown_toLower (character : Char) :
    (shown character.toLower).toLower = (shown character).toLower := by
  rcases toLower_cases character with unchanged | ⟨index, capital, small⟩
  · rw [unchanged]
  · have letters : ∀ index : Fin 26, (shown (Char.ofNat (97 + index))).toLower =
        (shown (Char.ofNat (65 + index))).toLower := by decide
    rw [small, capital, letters]

end Character

namespace Text

@[simp]
theorem lower_nil : lower [] = [] :=
  rfl

@[simp]
theorem lower_cons (first : Char) (rest : List Char) :
    lower (first :: rest) = first.toLower :: lower rest :=
  rfl

@[simp]
theorem length_lower (text : List Char) : (lower text).length = text.length :=
  List.length_map _

@[simp]
theorem lower_lower (text : List Char) : lower (lower text) = lower text := by
  rw [lower, lower, List.map_map]
  exact List.map_congr_left fun character _ => Character.toLower_toLower character

theorem lower_take (count : Nat) (text : List Char) :
    lower (text.take count) = (lower text).take count :=
  List.map_take

theorem lower_drop (count : Nat) (text : List Char) :
    lower (text.drop count) = (lower text).drop count :=
  List.map_drop

theorem lower_eq_self {text : List Char}
    (small : ∀ character ∈ text, character.isUpper = false) : lower text = text := by
  calc lower text
      = text.map id := List.map_congr_left fun character member =>
        Character.toLower_of_not_isUpper (small character member)
    _ = text := List.map_id _

theorem isUpper_of_mem_lower {text : List Char} :
    ∀ character ∈ lower text, character.isUpper = false := by
  intro character member
  rcases List.mem_map.mp member with ⟨original, _, rfl⟩
  exact Character.isUpper_toLower original

@[simp]
theorem byteLength_lower (text : List Char) : byteLength (lower text) = byteLength text := by
  induction text with
  | nil => rfl
  | cons first rest ih => simp [byteLength, ih]

theorem takeBytes_lower (bytes : Nat) (text : List Char) :
    takeBytes bytes (lower text) = (takeBytes bytes text).map lower := by
  induction text generalizing bytes with
  | nil => cases bytes <;> rfl
  | cons first rest ih =>
      cases bytes with
      | zero => rfl
      | succ bytes =>
          simp only [lower_cons, takeBytes, Character.utf8Size_toLower, ih]
          split
          · simp [Function.comp_def]
          · rfl

theorem toList_toLower (text : String) : text.toLower.toList = lower text.toList :=
  String.toList_map

theorem toLower_ofList (text : List Char) :
    (String.ofList text).toLower = String.ofList (lower text) := by
  apply String.toList_injective
  rw [toList_toLower, String.toList_ofList, String.toList_ofList]

theorem toLower_eq_self {text : String}
    (small : ∀ character ∈ text.toList, character.isUpper = false) : text.toLower = text := by
  apply String.toList_injective
  rw [toList_toLower, lower_eq_self small]

theorem takeWhile_lower {belongs : Char → Bool}
    (caseless : ∀ character : Char, belongs character.toLower = belongs character)
    (text : List Char) : (lower text).takeWhile belongs = lower (text.takeWhile belongs) := by
  have same : belongs ∘ Char.toLower = belongs := funext caseless
  rw [lower, List.takeWhile_map, same]
  rfl

theorem dropWhile_lower {belongs : Char → Bool}
    (caseless : ∀ character : Char, belongs character.toLower = belongs character)
    (text : List Char) : (lower text).dropWhile belongs = lower (text.dropWhile belongs) := by
  have same : belongs ∘ Char.toLower = belongs := funext caseless
  rw [lower, List.dropWhile_map, same]
  rfl

theorem trim_lower (text : List Char) : trim (lower text) = lower (trim text) := by
  unfold trim trimEnd
  rw [dropWhile_lower Character.isWhiteSpace_toLower]
  have reversed : (lower (text.dropWhile isWhiteSpace)).reverse =
      lower (text.dropWhile isWhiteSpace).reverse := List.map_reverse.symm
  rw [reversed, dropWhile_lower Character.isWhiteSpace_toLower]
  exact List.map_reverse.symm

theorem IsTrimmed.lower {text : List Char} (trimmed : IsTrimmed text) :
    IsTrimmed (Text.lower text) where
  front := by
    intro character member
    rw [Text.lower, List.head?_map] at member
    rcases Option.map_eq_some_iff.mp member with ⟨original, front, rfl⟩
    rw [Character.isWhiteSpace_toLower]
    exact trimmed.front original front
  back := by
    intro character member
    rw [Text.lower, List.getLast?_map] at member
    rcases Option.map_eq_some_iff.mp member with ⟨original, back, rfl⟩
    rw [Character.isWhiteSpace_toLower]
    exact trimmed.back original back

theorem mem_lower_iff {mark : Char} (noLetter : mark.isAlpha = false) {text : List Char} :
    mark ∈ lower text ↔ mark ∈ text := by
  simp [lower, List.mem_map, noLetter]

/-- A mark in front of a text in small letters stands in front of the text itself. -/
theorem exists_of_lower_eq_cons {text rest : List Char} {mark : Char}
    (noLetter : mark.isAlpha = false) (lowered : lower text = mark :: rest) :
    ∃ tail, text = mark :: tail ∧ lower tail = rest := by
  match text with
  | [] => simp at lowered
  | first :: tail =>
      rw [lower_cons, List.cons.injEq] at lowered
      exact ⟨tail, by rw [(Character.toLower_eq_iff noLetter first).mp lowered.1], lowered.2⟩

theorem head?_lower_iff {mark : Char} (noLetter : mark.isAlpha = false) (text : List Char) :
    (lower text).head? = some mark ↔ text.head? = some mark := by
  cases text with
  | nil => rfl
  | cons first rest => simp [noLetter]

/-- Two marks that do not stand in front of a text stand in front of no copy of it. -/
theorem not_marks_of_lower {first front behind : Char} {rest : List Char}
    (noLetterFront : front.isAlpha = false) (noLetterBehind : behind.isAlpha = false)
    (alone : ∀ tail, first = front → rest = behind :: tail → False) :
    ∀ tail, first.toLower = front → lower rest = behind :: tail → False := by
  intro tail same lowered
  rcases exists_of_lower_eq_cons noLetterBehind lowered with ⟨more, next, _⟩
  exact alone more ((Character.toLower_eq_iff noLetterFront first).mp same) next

end Text

end MediaQuery
