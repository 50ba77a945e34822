import MediaQuery.Json.Basic
import MediaQuery.Proofs.Json.Token

/-!
# The grammar of JSON

Which tokens make up a value, the items of an array and the members of an object. The reader of
tokens follows the grammar: what it reads is made up as the grammar says, and with a depth of twice
the tokens it reads all that is. So a text is read as a value exactly if it is written as one.
-/

namespace MediaQuery

namespace Json

/-- What a row of tokens may make up: a value, or what follows the opening mark of another one. -/
inductive Phrase where
  | value (value : Json)
  | items (items : List Json)
  | members (members : List (Option String × Json))

/-- The tokens that make up a phrase. -/
inductive Derives : Phrase → List Token → Prop
  | null : Derives (.value .null) [.null]
  | bool (value : Bool) : Derives (.value (.bool value)) [.bool value]
  | number (numeral : Numeral) : Derives (.value (.number numeral)) [.number numeral]
  | string (text : Option String) : Derives (.value (.string text)) [.string text]
  | emptyArray : Derives (.value (.array [])) [.openArray, .closeArray]
  | array {items : List Json} {tokens : List Token} (rest : Derives (.items items) tokens) :
      Derives (.value (.array items)) (.openArray :: tokens)
  | emptyObject : Derives (.value (.object [])) [.openObject, .closeObject]
  | object {members : List (Option String × Json)} {tokens : List Token}
      (rest : Derives (.members members) tokens) :
      Derives (.value (.object members)) (.openObject :: tokens)
  | lastItem {item : Json} {tokens : List Token} (first : Derives (.value item) tokens) :
      Derives (.items [item]) (tokens ++ [.closeArray])
  | nextItem {item : Json} {items : List Json} {tokens others : List Token}
      (first : Derives (.value item) tokens) (rest : Derives (.items items) others) :
      Derives (.items (item :: items)) (tokens ++ .comma :: others)
  | lastMember {key : Option String} {value : Json} {tokens : List Token}
      (first : Derives (.value value) tokens) :
      Derives (.members [(key, value)]) (.string key :: .colon :: (tokens ++ [.closeObject]))
  | nextMember {key : Option String} {value : Json} {members : List (Option String × Json)}
      {tokens others : List Token} (first : Derives (.value value) tokens)
      (rest : Derives (.members members) others) :
      Derives (.members ((key, value) :: members))
        (.string key :: .colon :: (tokens ++ .comma :: others))

/-- A text that is written as a value. -/
def IsText (text : List Char) (value : Json) : Prop :=
  ∃ tokens, Token.IsRow text tokens ∧ Derives (.value value) tokens

section Completeness

variable {phrase : Phrase} {tokens : List Token}

/-- No phrase starts with a closing mark. -/
theorem Derives.front (derives : Derives phrase tokens) :
    ∃ first others, tokens = first :: others ∧ first ≠ .closeArray ∧ first ≠ .closeObject := by
  induction derives with
  | lastItem _ ih | nextItem _ _ ih _ =>
      rcases ih with ⟨first, others, rfl, noClose⟩
      exact ⟨first, _, rfl, noClose⟩
  | _ => exact ⟨_, _, rfl, by simp, by simp⟩

theorem isChain_between {left right : List Token} (mark : Token) (marked : mark.isMark = true)
    (chainLeft : left.IsChain Token.Apart) (chainRight : right.IsChain Token.Apart) :
    (left ++ mark :: right).IsChain Token.Apart := by
  refine List.isChain_append.mpr ⟨chainLeft, ?_, ?_⟩
  · exact List.isChain_cons.mpr ⟨fun _ _ => Or.inl marked, chainRight⟩
  · rintro _ _ _ ⟨⟩
    exact Or.inr marked

/-- Of two neighbours in a phrase one is a mark. -/
theorem Derives.isChain (derives : Derives phrase tokens) : tokens.IsChain Token.Apart := by
  induction derives with
  | null => exact .singleton _
  | bool => exact .singleton _
  | number => exact .singleton _
  | string => exact .singleton _
  | emptyArray => exact isChain_between .openArray rfl .nil (.singleton _)
  | array _ ih => exact @isChain_between [] _ .openArray rfl .nil ih
  | emptyObject => exact isChain_between .openObject rfl .nil (.singleton _)
  | object _ ih => exact @isChain_between [] _ .openObject rfl .nil ih
  | lastItem _ ih => exact isChain_between .closeArray rfl ih .nil
  | nextItem _ _ ih ihRest => exact isChain_between .comma rfl ih ihRest
  | @lastMember key _ _ _ ih =>
      exact @isChain_between [.string key] _ .colon rfl (.singleton _)
        (isChain_between .closeObject rfl ih .nil)
  | @nextMember key _ _ _ _ _ _ ih ihRest =>
      exact @isChain_between [.string key] _ .colon rfl (.singleton _)
        (isChain_between .comma rfl ih ihRest)

/-- A phrase is read from its tokens in front of any others. -/
def Reads (depth : Nat) (tokens : List Token) : Phrase → Prop
  | .value value => ∀ rest, read? depth (tokens ++ rest) = some (value, rest)
  | .items items => ∀ rest, readItems? depth (tokens ++ rest) = some (items, rest)
  | .members members => ∀ rest, readMembers? depth (tokens ++ rest) = some (members, rest)

section Steps

variable {depth : Nat} {others : List Token} {item : Json} {items : List Json}
  {key : Option String} {members : List (Option String × Json)}

theorem Reads.array {first : Token} (reads : Reads depth (first :: tokens) (.items items))
    (noClose : first ≠ .closeArray) :
    Reads (depth + 1) (.openArray :: first :: tokens) (.value (.array items)) := by
  intro rest
  have found := reads rest
  rw [List.cons_append] at found
  rw [List.cons_append, List.cons_append, read?, found]
  · rfl
  · rintro after ⟨⟩
    exact noClose rfl

theorem Reads.object {first : Token} (reads : Reads depth (first :: tokens) (.members members))
    (noClose : first ≠ .closeObject) :
    Reads (depth + 1) (.openObject :: first :: tokens) (.value (.object members)) := by
  intro rest
  have found := reads rest
  rw [List.cons_append] at found
  rw [List.cons_append, List.cons_append, read?, found]
  · rfl
  · rintro after ⟨⟩
    exact noClose rfl

theorem Reads.lastItem (reads : Reads depth tokens (.value item)) :
    Reads (depth + 1) (tokens ++ [.closeArray]) (.items [item]) := by
  intro rest
  have found := reads (.closeArray :: rest)
  rw [List.append_assoc, List.singleton_append, readItems?, found]

theorem Reads.nextItem (reads : Reads depth tokens (.value item))
    (readsRest : Reads depth others (.items items)) :
    Reads (depth + 1) (tokens ++ .comma :: others) (.items (item :: items)) := by
  intro rest
  have found := reads (.comma :: (others ++ rest))
  rw [List.append_assoc, List.cons_append, readItems?, found]
  dsimp only
  rw [readsRest rest]
  rfl

theorem Reads.lastMember (reads : Reads depth tokens (.value item)) :
    Reads (depth + 1) (.string key :: .colon :: (tokens ++ [.closeObject]))
      (.members [(key, item)]) := by
  intro rest
  have found := reads (.closeObject :: rest)
  rw [List.cons_append, List.cons_append, List.append_assoc, List.singleton_append, readMembers?,
    found]

theorem Reads.nextMember (reads : Reads depth tokens (.value item))
    (readsRest : Reads depth others (.members members)) :
    Reads (depth + 1) (.string key :: .colon :: (tokens ++ .comma :: others))
      (.members ((key, item) :: members)) := by
  intro rest
  have found := reads (.comma :: (others ++ rest))
  rw [List.cons_append, List.cons_append, List.append_assoc, List.cons_append, readMembers?, found]
  dsimp only
  rw [readsRest rest]
  rfl

end Steps

theorem Derives.exists_succ (derives : Derives phrase tokens) {depth : Nat}
    (deep : 2 * tokens.length ≤ depth) : ∃ smaller, depth = smaller + 1 := by
  rcases derives.front with ⟨first, others, rfl, _⟩
  rw [List.length_cons] at deep
  exact Nat.exists_eq_succ_of_ne_zero (by omega)

/-- A depth of twice its tokens is enough to read a phrase. -/
theorem Derives.reads (derives : Derives phrase tokens) {depth : Nat}
    (deep : 2 * tokens.length ≤ depth) : Reads depth tokens phrase := by
  induction derives generalizing depth with
  | null | bool | number | string | emptyArray | emptyObject =>
      rcases exists_succ (by constructor) deep with ⟨depth, rfl⟩
      exact fun rest => rfl
  | array rest ih =>
      rcases exists_succ (.array rest) deep with ⟨depth, rfl⟩
      rw [List.length_cons] at deep
      have reads := @ih depth (by omega)
      rcases rest.front with ⟨first, others, rfl, noClose, _⟩
      exact reads.array noClose
  | object rest ih =>
      rcases exists_succ (.object rest) deep with ⟨depth, rfl⟩
      rw [List.length_cons] at deep
      have reads := @ih depth (by omega)
      rcases rest.front with ⟨first, others, rfl, _, noClose⟩
      exact reads.object noClose
  | lastItem first ih =>
      rcases exists_succ (.lastItem first) deep with ⟨depth, rfl⟩
      simp only [List.length_append, List.length_singleton] at deep
      exact (@ih depth (by omega)).lastItem
  | nextItem first rest ih ihRest =>
      rcases exists_succ (.nextItem first rest) deep with ⟨depth, rfl⟩
      simp only [List.length_append, List.length_cons] at deep
      exact (@ih depth (by omega)).nextItem (@ihRest depth (by omega))
  | lastMember first ih =>
      rcases exists_succ (.lastMember first) deep with ⟨depth, rfl⟩
      simp only [List.length_append, List.length_cons] at deep
      exact (@ih depth (by omega)).lastMember
  | nextMember first rest ih ihRest =>
      rcases exists_succ (.nextMember first rest) deep with ⟨depth, rfl⟩
      simp only [List.length_append, List.length_cons] at deep
      exact (@ih depth (by omega)).nextMember (@ihRest depth (by omega))

end Completeness

section Soundness

/-- The tokens that a phrase took from the front of others make it up. -/
def Takes (phrase : Phrase) (tokens rest : List Token) : Prop :=
  ∃ front, tokens = front ++ rest ∧ Derives phrase front

/-- What is read with a depth is made up of the tokens taken. -/
structure IsSound (depth : Nat) : Prop where
  value : ∀ {tokens value rest}, read? depth tokens = some (value, rest) →
    Takes (.value value) tokens rest
  items : ∀ {tokens items rest}, readItems? depth tokens = some (items, rest) →
    Takes (.items items) tokens rest
  members : ∀ {tokens members rest}, readMembers? depth tokens = some (members, rest) →
    Takes (.members members) tokens rest

namespace IsSound

variable {depth : Nat} {tokens rest : List Token}

theorem value_succ (sound : IsSound depth) {value : Json}
    (found : read? (depth + 1) tokens = some (value, rest)) :
    Takes (.value value) tokens rest := by
  unfold read? at found
  split at found
  · cases found
    exact ⟨[_], rfl, .null⟩
  · cases found
    exact ⟨[_], rfl, .bool _⟩
  · cases found
    exact ⟨[_], rfl, .number _⟩
  · cases found
    exact ⟨[_], rfl, .string _⟩
  · cases found
    exact ⟨[_, _], rfl, .emptyArray⟩
  · rcases Option.map_eq_some_iff.mp found with ⟨⟨items, after⟩, foundItems, ⟨⟩⟩
    rcases sound.items foundItems with ⟨front, rfl, derives⟩
    exact ⟨_ :: front, rfl, .array derives⟩
  · cases found
    exact ⟨[_, _], rfl, .emptyObject⟩
  · rcases Option.map_eq_some_iff.mp found with ⟨⟨members, after⟩, foundMembers, ⟨⟩⟩
    rcases sound.members foundMembers with ⟨front, rfl, derives⟩
    exact ⟨_ :: front, rfl, .object derives⟩
  · cases found

theorem items_succ (sound : IsSound depth) {items : List Json}
    (found : readItems? (depth + 1) tokens = some (items, rest)) :
    Takes (.items items) tokens rest := by
  rw [readItems?] at found
  split at found
  · rename_i foundItem
    cases found
    rcases sound.value foundItem with ⟨front, rfl, derives⟩
    exact ⟨front ++ [.closeArray], by simp, .lastItem derives⟩
  · rename_i foundItem
    rcases Option.map_eq_some_iff.mp found with ⟨⟨items, after⟩, foundItems, ⟨⟩⟩
    rcases sound.value foundItem with ⟨front, rfl, derives⟩
    rcases sound.items foundItems with ⟨others, rfl, derivesRest⟩
    exact ⟨front ++ .comma :: others, by simp, .nextItem derives derivesRest⟩
  · cases found

theorem members_succ (sound : IsSound depth) {members : List (Option String × Json)}
    (found : readMembers? (depth + 1) tokens = some (members, rest)) :
    Takes (.members members) tokens rest := by
  unfold readMembers? at found
  split at found
  · rename_i key others
    split at found
    · rename_i foundValue
      cases found
      rcases sound.value foundValue with ⟨front, rfl, derives⟩
      exact ⟨.string key :: .colon :: (front ++ [.closeObject]), by simp, .lastMember derives⟩
    · rename_i foundValue
      rcases Option.map_eq_some_iff.mp found with ⟨⟨members, after⟩, foundMembers, ⟨⟩⟩
      rcases sound.value foundValue with ⟨front, rfl, derives⟩
      rcases sound.members foundMembers with ⟨others, rfl, derivesRest⟩
      exact ⟨.string key :: .colon :: (front ++ .comma :: others), by simp,
        .nextMember derives derivesRest⟩
    · cases found
  · cases found

end IsSound

theorem isSound (depth : Nat) : IsSound depth := by
  induction depth with
  | zero => exact ⟨nofun, nofun, nofun⟩
  | succ depth ih => exact ⟨ih.value_succ, ih.items_succ, ih.members_succ⟩

end Soundness

/-- The tokens of a text are one value exactly if they are derived from it. -/
theorem ofTokens?_eq_some_iff (tokens : List Token) (value : Json) :
    ofTokens? tokens = some value ↔ Derives (.value value) tokens := by
  constructor
  · intro found
    unfold ofTokens? at found
    split at found
    · rename_i foundValue
      cases found
      rcases (isSound _).value foundValue with ⟨front, rfl, derives⟩
      rwa [List.append_nil]
    · cases found
  · intro derives
    have reads := derives.reads (Nat.le_succ (2 * tokens.length)) []
    rw [List.append_nil] at reads
    rw [ofTokens?, reads]

/-- A text is read as a value exactly if it is written as one. -/
theorem ofString?_eq_some_iff (text : String) (value : Json) :
    ofString? text = some value ↔ IsText text.toList value := by
  constructor
  · intro found
    rcases Option.bind_eq_some_iff.mp found with ⟨tokens, foundTokens, foundValue⟩
    exact ⟨tokens, Token.isRow_of_ofText? foundTokens,
      (ofTokens?_eq_some_iff tokens value).mp foundValue⟩
  · rintro ⟨tokens, row, derives⟩
    rw [ofString?, Token.ofText?_of_isRow row derives.isChain, Option.bind_some]
    exact (ofTokens?_eq_some_iff tokens value).mpr derives

/-- A text is written as one value at most. -/
theorem IsText.unique {text : List Char} {left right : Json} (isLeft : IsText text left)
    (isRight : IsText text right) : left = right := by
  rw [← @String.toList_ofList text, ← ofString?_eq_some_iff] at isLeft isRight
  exact Option.some.inj (isLeft.symm.trans isRight)

end Json

end MediaQuery
