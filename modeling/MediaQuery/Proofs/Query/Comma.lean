import MediaQuery.Query.Evaluation

/-!
# Commas between queries

A comma parts a text wherever it stands, so the queries on its two sides are read
apart from each other. The main statement is that a comma between two texts joins
their queries, and so means that one of the two holds.
-/

namespace MediaQuery

namespace Text

theorem splitAtCommas_ne_nil (text : List Char) : splitAtCommas text ≠ [] := by
  apply List.ne_nil_of_length_pos
  rw [length_splitAtCommas]
  exact Nat.succ_pos _

theorem splitAtCommas_cons {character : Char} (other : character ≠ ',') (rest : List Char) :
    splitAtCommas (character :: rest) = (splitAtCommas rest).modifyHead (character :: ·) := by
  simp [splitAtCommas, other]

theorem splitAtCommas_of_not_mem {text : List Char} (noComma : ',' ∉ text) :
    splitAtCommas text = [text] := by
  induction text with
  | nil => rfl
  | cons character rest ih =>
      have other := (List.ne_of_not_mem_cons noComma).symm
      rw [splitAtCommas_cons other, ih (List.not_mem_of_not_mem_cons noComma)]
      rfl

theorem not_mem_of_mem_splitAtCommas {text part : List Char}
    (member : part ∈ splitAtCommas text) : ',' ∉ part := by
  induction text generalizing part with
  | nil =>
      have same : part = [] := by simpa [splitAtCommas] using member
      simp [same]
  | cons character rest ih =>
      by_cases comma : character = ','
      · rcases List.mem_cons.mp (by simpa [splitAtCommas, comma] using member) with rfl | later
        · simp
        · exact ih later
      · rw [splitAtCommas_cons comma] at member
        rcases List.exists_cons_of_ne_nil (splitAtCommas_ne_nil rest) with ⟨head, tail, parts⟩
        rw [parts] at member ih
        rcases List.mem_cons.mp member with rfl | later
        · exact List.not_mem_cons_of_ne_of_not_mem (Ne.symm comma) (ih List.mem_cons_self)
        · exact ih (List.mem_cons_of_mem _ later)

/-- The parts of a text between its commas make it up again. -/
theorem intercalate_splitAtCommas (text : List Char) :
    [','].intercalate (splitAtCommas text) = text := by
  induction text with
  | nil => rfl
  | cons character rest ih =>
      rcases List.exists_cons_of_ne_nil (splitAtCommas_ne_nil rest) with ⟨head, tail, parts⟩
      by_cases comma : character = ','
      · simp [splitAtCommas, comma, parts, List.intercalate_cons_cons] at ih ⊢
        exact ih
      · rw [splitAtCommas_cons comma, parts]
        rw [parts] at ih
        cases tail with
        | nil => simpa using ih
        | cons next tail => simpa [List.intercalate_cons_cons] using ih

theorem infix_intercalate {parts : List (List Char)} {part : List Char} (member : part ∈ parts) :
    part <:+: [','].intercalate parts := by
  induction parts with
  | nil => simp at member
  | cons first rest ih =>
      match rest with
      | [] =>
          have same : part = first := by simpa using member
          simp [same]
      | next :: rest =>
          rw [List.intercalate_cons_cons, List.append_assoc]
          rcases List.mem_cons.mp member with rfl | later
          · exact (List.prefix_append part _).isInfix
          · exact (ih later).trans ((List.suffix_append _ _).trans (List.suffix_append _ _)).isInfix

theorem infix_of_mem_splitAtCommas {text part : List Char}
    (member : part ∈ splitAtCommas text) : part <:+: text := by
  have inside := infix_intercalate member
  rwa [intercalate_splitAtCommas] at inside

theorem mem_of_mem_splitAtCommas {text part : List Char} (member : part ∈ splitAtCommas text)
    {inside : Char} (among : inside ∈ part) : inside ∈ text ∧ inside ≠ ',' := by
  refine ⟨(infix_of_mem_splitAtCommas member).subset among, ?_⟩
  rintro rfl
  exact not_mem_of_mem_splitAtCommas member among

/-- Texts without commas are the parts of what commas join of them. -/
theorem splitAtCommas_intercalate {parts : List (List Char)} (nonempty : parts ≠ [])
    (noComma : ∀ part ∈ parts, ',' ∉ part) : splitAtCommas ([','].intercalate parts) = parts := by
  induction parts with
  | nil => exact absurd rfl nonempty
  | cons part rest ih =>
      have first := splitAtCommas_of_not_mem (noComma part (by simp))
      match rest with
      | [] => simpa using first
      | next :: rest =>
          have later := ih (by simp) fun other member =>
            noComma other (List.mem_cons_of_mem _ member)
          rw [List.intercalate_cons_cons, List.append_assoc, List.singleton_append,
            splitAtCommas_append_comma, first, later]
          rfl

theorem splitAtCommas_append {left : List Char} (noComma : ',' ∉ left) (rest : List Char) :
    splitAtCommas (left ++ rest) = (splitAtCommas rest).modifyHead (left ++ ·) := by
  induction left with
  | nil => exact (congrFun List.modifyHead_id (splitAtCommas rest)).symm
  | cons character left ih =>
      have other := (List.ne_of_not_mem_cons noComma).symm
      rw [List.cons_append, splitAtCommas_cons other,
        ih (List.not_mem_of_not_mem_cons noComma), List.modifyHead_modifyHead]
      rfl

theorem exists_intercalate_concat (parts : List (List Char)) (last : List Char) :
    [','].intercalate (parts ++ [last]) = last ∨
      ∃ front, [','].intercalate (parts ++ [last]) = front ++ ',' :: last := by
  induction parts with
  | nil => exact Or.inl (by simp)
  | cons part parts ih =>
      right
      rw [List.cons_append, List.intercalate_cons_of_ne_nil (by simp)]
      rcases ih with same | ⟨front, same⟩
      · exact ⟨part, by rw [same, List.append_assoc]; rfl⟩
      · exact ⟨part ++ ',' :: front, by rw [same]; simp⟩

/-- What comes before the last comma of a text is parted from all that follows. -/
theorem exists_splitAtCommas_append {before left : List Char}
    (last : (splitAtCommas before).getLast? = some left) :
    ∃ parts, ∀ rest, splitAtCommas (before ++ rest) = parts ++ splitAtCommas (left ++ rest) := by
  rcases List.getLast?_eq_some_iff.mp last with ⟨parts, split⟩
  have whole := intercalate_splitAtCommas before
  rw [split] at whole
  rcases exists_intercalate_concat parts left with same | ⟨front, same⟩
  · refine ⟨[], fun rest => ?_⟩
    rw [← whole, same, List.nil_append]
  · refine ⟨splitAtCommas front, fun rest => ?_⟩
    rw [← whole, same, List.append_assoc, List.cons_append, splitAtCommas_append_comma]

/-- What stands between two commas of a text, or its ends, is one part of it. -/
theorem exists_splitAtCommas_between {before left right after : List Char}
    (last : (splitAtCommas before).getLast? = some left)
    (first : (splitAtCommas after).head? = some right) :
    ∃ front back, ∀ middle, ',' ∉ middle →
      splitAtCommas (before ++ (middle ++ after)) =
        front ++ (left ++ (middle ++ right)) :: back := by
  rcases exists_splitAtCommas_append last with ⟨front, parted⟩
  rcases List.head?_eq_some_iff.mp first with ⟨back, split⟩
  refine ⟨front, back, fun middle noComma => ?_⟩
  have noCommaLeft := not_mem_of_mem_splitAtCommas (List.mem_of_getLast? last)
  rw [parted, splitAtCommas_append noCommaLeft, splitAtCommas_append noComma, split]
  rfl

end Text

namespace QueryList

theorem ofString_of_not_mem {text : String} (noComma : ',' ∉ text.toList) :
    ofString text = [Query.ofString text] := by
  rw [ofString, Text.splitAtCommas_of_not_mem noComma]
  rfl

/-- A text without commas holds if the one query that it is does. -/
theorem evaluateText_of_not_mem {text : String} (noComma : ',' ∉ text.toList)
    (environment : Environment) (options : MatchOptions) :
    evaluateText text environment options =
      (Query.ofString text).evaluate environment options := by
  rw [evaluateText, ofString_of_not_mem noComma]
  simp [evaluate]

theorem ofString_append_comma (left right : String) :
    ofString (left ++ "," ++ right) = ofString left ++ ofString right := by
  have comma : (left ++ "," ++ right).toList = left.toList ++ ',' :: right.toList := by simp
  rw [ofString, comma, Text.splitAtCommas_append_comma, List.map_append]
  rfl

theorem evaluate_append (left right : QueryList) (environment : Environment)
    (options : MatchOptions) :
    evaluate (left ++ right) environment options =
      (evaluate left environment options || evaluate right environment options) :=
  List.any_append

theorem length_ofString (text : String) :
    (ofString text).length = text.toList.count ',' + 1 := by
  rw [ofString, List.length_map, Text.length_splitAtCommas]

/--
A comma means that one of the queries on its two sides holds, and neither side
counts for what the other one means. The queries of a text are those of the parts
between its commas, in order, so there is one more of them than there are commas.
-/
theorem ofString_comma (left right : String) :
    ofString (left ++ "," ++ right) = ofString left ++ ofString right ∧
      (∃ parts, (∀ part ∈ parts, ',' ∉ part) ∧ [','].intercalate parts = left.toList ∧
        ofString left = parts.map Query.ofText) ∧
      (ofString left).length = left.toList.count ',' + 1 ∧ ofString left ≠ [] ∧
      ∀ environment options,
        evaluateText (left ++ "," ++ right) environment options =
          (evaluateText left environment options || evaluateText right environment options) := by
  have joined := ofString_append_comma left right
  have counted := length_ofString left
  refine ⟨joined, ?_, counted, ?_, ?_⟩
  · exact ⟨Text.splitAtCommas left.toList, fun part member =>
      Text.not_mem_of_mem_splitAtCommas member, Text.intercalate_splitAtCommas _, rfl⟩
  · apply List.ne_nil_of_length_pos
    rw [counted]
    exact Nat.succ_pos _
  · intro environment options
    rw [evaluateText, joined, evaluate_append]
    rfl

end QueryList

end MediaQuery
