import MediaQuery.Text.Basic

/-!
# Text in bytes

A text can be cut at a number of bytes if no character is cut through. Where a text is put
together of parts, it can be cut between them.
-/

namespace MediaQuery

namespace Text

/-- The text behind exactly the given number of bytes, if no character is cut through. -/
def dropBytes : Nat → List Char → Option (List Char)
  | 0, text => some text
  | _ + 1, [] => none
  | bytes + 1, character :: rest =>
      if character.utf8Size ≤ bytes + 1 then
        dropBytes (bytes + 1 - character.utf8Size) rest
      else
        none

/-- The piece of a text between two places, given by the bytes in front of them. -/
def slice? (start stop : Nat) (text : List Char) : Option (List Char) :=
  (dropBytes start text).bind (takeBytes (stop - start))

theorem byteLength_eq_utf8ByteSize (text : List Char) :
    byteLength text = (String.ofList text).utf8ByteSize := by
  induction text with
  | nil => rfl
  | cons character rest ih =>
      rw [byteLength, ih]
      simp [String.ofList_cons]

theorem byteLength_pos {text : List Char} (nonempty : text ≠ []) : 0 < byteLength text := by
  rcases List.exists_cons_of_ne_nil nonempty with ⟨first, rest, rfl⟩
  have width := first.utf8Size_pos
  rw [byteLength]
  omega

/-- The bytes of a text are those of its first character and those behind it. -/
theorem exists_byteLength_cons (character : Char) (rest : List Char) :
    ∃ bytes, byteLength (character :: rest) = bytes + 1 ∧ character.utf8Size ≤ bytes + 1 ∧
      bytes + 1 - character.utf8Size = byteLength rest := by
  have width := character.utf8Size_pos
  rcases counted : byteLength (character :: rest) with _ | bytes
  · rw [byteLength] at counted
    omega
  · rw [byteLength] at counted
    exact ⟨bytes, rfl, by omega, by omega⟩

theorem takeBytes_byteLength (front back : List Char) :
    takeBytes (byteLength front) (front ++ back) = some front := by
  induction front with
  | nil => simp [byteLength, takeBytes]
  | cons character rest ih =>
      rcases exists_byteLength_cons character rest with ⟨bytes, counted, fits, left⟩
      rw [counted, List.cons_append, takeBytes, if_pos fits, left, ih, Option.map_some]

theorem dropBytes_byteLength (front back : List Char) :
    dropBytes (byteLength front) (front ++ back) = some back := by
  induction front with
  | nil => simp [byteLength, dropBytes]
  | cons character rest ih =>
      rcases exists_byteLength_cons character rest with ⟨bytes, counted, fits, left⟩
      rw [counted, List.cons_append, dropBytes, if_pos fits, left, ih]

/-- Whether every character of a text takes one byte. -/
def IsNarrow (text : List Char) : Prop :=
  ∀ character ∈ text, character.utf8Size = 1

instance (text : List Char) : Decidable (IsNarrow text) :=
  decidable_of_iff (text.all fun character => character.utf8Size == 1) (by simp [IsNarrow])

theorem IsNarrow.byteLength_eq {text : List Char} (narrow : IsNarrow text) :
    byteLength text = text.length := by
  induction text with
  | nil => rfl
  | cons character rest ih =>
      have rest := ih fun other member => narrow other (List.mem_cons_of_mem _ member)
      rw [byteLength, narrow character List.mem_cons_self, rest, List.length_cons, Nat.add_comm]

theorem IsNarrow.append {front back : List Char} (narrow : IsNarrow front)
    (narrowBack : IsNarrow back) : IsNarrow (front ++ back) :=
  List.forall_mem_append.mpr ⟨narrow, narrowBack⟩

theorem slice?_append (front middle back : List Char) :
    slice? (byteLength front) (byteLength (front ++ middle)) (front ++ (middle ++ back)) =
      some middle := by
  rw [slice?, dropBytes_byteLength, Option.bind_some, byteLength_append, Nat.add_sub_cancel_left,
    takeBytes_byteLength]

end Text

end MediaQuery
