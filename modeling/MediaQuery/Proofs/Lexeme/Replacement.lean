import MediaQuery.Proofs.Lexeme.Truncation

/-!
# Texts that go on differently

A token that ends within a text is the same when what follows the text is left out. From there
it can be followed by anything that stays apart from it, unless it is a string that a newline
cuts off or a name whose quote is not in sight.
-/

namespace MediaQuery

namespace Token

open Character

variable {text more : List Char}

theorem address?_of_opened {rest : List Char}
    (opened : text.drop (Name.scan text).2 = '(' :: rest) :
    address? text =
      if Text.lower (Name.scan text).1 = ['u', 'r', 'l'] && !startsQuoted rest then some rest
      else none := by
  simp only [address?, opened]

theorem scanName_of_opened {rest : List Char}
    (opened : text.drop (Name.scan text).2 = '(' :: rest) :
    scanName text =
      if Text.lower (Name.scan text).1 = ['u', 'r', 'l'] && !startsQuoted rest then
        lengthen ((Name.scan text).2 + 1 + (rest.takeWhile isSpace).length)
          (scanUrl 0 (rest.drop (rest.takeWhile isSpace).length))
      else
        (.function, (Name.scan text).2 + 1) := by
  simp only [scanName, opened]

theorem length_scan_le_scanName (text : List Char) :
    (Name.scan text).2 ≤ (scanName text).2 := by
  rw [scanName_eq]
  split
  · rw [lengthen_snd]
    omega
  · split
    · exact Nat.le_succ _
    · exact le_refl _

/-- An address that ends within a text is the same if the text ends there. -/
theorem scanUrl_of_append {rest : List Char} (plain : '\\' ∉ rest) (goesOn : more ≠ [])
    (inside : ((rest ++ more).takeWhile isSpace).length +
      (scanUrl 0 ((rest ++ more).drop ((rest ++ more).takeWhile isSpace).length)).2 ≤ rest.length) :
    (rest.take (((rest ++ more).takeWhile isSpace).length +
        (scanUrl 0 ((rest ++ more).drop ((rest ++ more).takeWhile isSpace).length)).2)).getLast? =
          some ')' ∧
      rest.takeWhile isSpace = (rest ++ more).takeWhile isSpace ∧
      scanUrl 0 (rest.drop (rest.takeWhile isSpace).length) =
        scanUrl 0 ((rest ++ more).drop ((rest ++ more).takeWhile isSpace).length) := by
  have gap : rest.takeWhile isSpace = (rest ++ more).takeWhile isSpace :=
    Text.takeWhile_of_append (by omega)
  have within : (rest.takeWhile isSpace).length ≤ rest.length :=
    (List.takeWhile_prefix isSpace).length_le
  have plainRest : '\\' ∉ rest.drop (rest.takeWhile isSpace).length :=
    fun member => plain (List.mem_of_mem_drop member)
  rw [← gap, List.drop_append_of_le_length within] at inside
  have last := getLast?_of_scanUrl_le plainRest goesOn (by rw [List.length_drop]; omega)
  have close := List.mem_of_mem_take (List.mem_of_getLast? last)
  refine ⟨?_, gap, ?_⟩
  · rw [← gap, List.drop_append_of_le_length within, List.take_add, List.getLast?_append, last]
    rfl
  · rw [← gap, List.drop_append_of_le_length within, scanUrl_append plainRest close]

theorem address?_eq_none_of_drop (unopened : (text.drop (Name.scan text).2).head? ≠ some '(') :
    address? text = none := by
  unfold address?
  split
  · rename_i rest opened
    simp [opened] at unopened
  · rfl

/--
A name that ends within a text, an address or a function included, is the same if the text
ends there. Only the quote that makes an address a function has to be in sight.
-/
theorem scanName_of_append (plain : '\\' ∉ text ++ more) (goesOn : more ≠ [])
    (inside : (scanName (text ++ more)).2 ≤ text.length)
    (quoted : Text.lower (Name.scan (text ++ more)).1 = ['u', 'r', 'l'] →
      (scanName (text ++ more)).1 = .function →
        ∃ character ∈ text.drop (scanName (text ++ more)).2, isSpace character = false) :
    scanName text = scanName (text ++ more) ∧ (address? text = none ∨ ')' ∈ text) := by
  have plainText : '\\' ∉ text := fun member => plain (List.mem_append_left _ member)
  have within := le_trans (length_scan_le_scanName (text ++ more)) inside
  have name := Name.scan_of_append plain within
  have behind : (text ++ more).drop (Name.scan (text ++ more)).2 =
      text.drop (Name.scan text).2 ++ more := by
    rw [← name, List.drop_append_of_le_length (name ▸ within)]
  by_cases opened : ((text ++ more).drop (Name.scan (text ++ more)).2).head? = some '('
  · have longer : (Name.scan (text ++ more)).2 + 1 ≤ (scanName (text ++ more)).2 := by
      rw [scanName_eq]
      split
      · rw [lengthen_snd]
        omega
      · rw [if_pos opened]
    rcases front : text.drop (Name.scan text).2 with _ | ⟨first, rest⟩
    · have reached := List.drop_eq_nil_iff.mp front
      rw [name] at reached
      omega
    rw [front, List.cons_append] at behind
    have same : first = '(' := by simpa [behind] using opened
    subst same
    have length : rest.length + 1 + (Name.scan (text ++ more)).2 = text.length := by
      have lengths := congrArg List.length front
      rw [List.length_drop, List.length_cons, name] at lengths
      omega
    rw [scanName_of_opened behind] at inside quoted ⊢
    rw [scanName_of_opened front, address?_of_opened front, name]
    by_cases url : Text.lower (Name.scan (text ++ more)).1 = ['u', 'r', 'l']
    · by_cases quote : startsQuoted (rest ++ more) = true
      · have solid : ∃ character ∈ rest, isSpace character = false := by
          have opening : text.drop ((Name.scan (text ++ more)).2 + 1) = rest := by
            rw [← List.drop_drop, ← name, front]
            rfl
          simpa [url, quote, opening] using quoted
        rw [startsQuoted_append_of_exists solid] at quote
        simp [url, quote, startsQuoted_append_of_exists solid]
      · simp only [url, quote, decide_true, Bool.not_false, Bool.and_self, if_true, lengthen_snd]
          at inside
        have among : ∀ character ∈ rest, character ∈ text := by
          intro character member
          apply List.mem_of_mem_drop (i := (Name.scan text).2)
          rw [front]
          exact List.mem_cons_of_mem _ member
        rcases scanUrl_of_append (fun member => plainText (among _ member)) goesOn (by omega) with
          ⟨last, gap, same⟩
        have close := List.mem_of_mem_take (List.mem_of_getLast? last)
        have solid : ∃ character ∈ rest, isSpace character = false := ⟨')', close, by decide⟩
        rw [startsQuoted_append_of_exists solid] at quote ⊢
        exact ⟨by rw [gap] at same ⊢; rw [same], Or.inr (among _ close)⟩
    · simp [url]
  · have unopened : (text.drop (Name.scan text).2).head? ≠ some '(' := by
      rw [behind] at opened
      intro front
      simp [front] at opened
    have noAddress := address?_eq_none_of_drop unopened
    refine ⟨?_, Or.inl noAddress⟩
    rw [scanName_eq, scanName_eq, noAddress, address?_eq_none_of_drop opened]
    simp only [if_neg opened, if_neg unopened]
    rw [name]

theorem scanNumeric_of_append (nonempty : text ≠ []) (plain : '\\' ∉ text ++ more)
    (inside : (scanNumeric (text ++ more)).2 ≤ text.length) :
    scanNumeric text = scanNumeric (text ++ more) ∧
      Numeral.starts text = Numeral.starts (text ++ more) := by
  have plainText : '\\' ∉ text := fun member => plain (List.mem_append_left _ member)
  have within : (Numeral.scan (text ++ more)).2 ≤ text.length := by
    refine le_trans ?_ inside
    rw [scanNumeric_eq]
    split
    · exact Nat.le_succ _
    · split
      · exact Nat.le_add_right _ _
      · exact le_refl _
  rcases Numeral.scan_of_append nonempty within with ⟨numeral, starts⟩
  refine ⟨?_, starts⟩
  rw [scanNumeric_eq] at inside
  rw [scanNumeric_eq, scanNumeric_eq, numeral]
  rw [List.drop_append_of_le_length within] at inside ⊢
  have plainRest : '\\' ∉ text.drop (Numeral.scan (text ++ more)).2 ++ more := by
    intro member
    apply plain
    rcases List.mem_append.mp member with rest | behind
    · exact List.mem_append_left _ (List.mem_of_mem_drop rest)
    · exact List.mem_append_right _ behind
  have length : (text.drop (Numeral.scan (text ++ more)).2).length =
      text.length - (Numeral.scan (text ++ more)).2 := List.length_drop
  generalize text.drop (Numeral.scan (text ++ more)).2 = rest at *
  have percents : (rest ++ more).head? = some '%' ↔ rest.head? = some '%' := by
    match rest with
    | [] =>
        constructor
        · intro percent
          rw [if_pos (by simpa using percent)] at inside
          simp only [List.length_nil] at inside length
          omega
        · simp
    | first :: rest => simp
  by_cases percent : rest.head? = some '%'
  · rw [if_pos (percents.mpr percent), if_pos percent]
  rw [if_neg (mt percents.mp percent)] at inside
  rw [if_neg (mt percents.mp percent), if_neg percent]
  by_cases unit : Name.starts (rest ++ more) = true
  · rw [if_pos unit] at inside
    have unitInside : (Name.scan (rest ++ more)).2 ≤ rest.length := by
      simp only at inside
      omega
    rw [if_pos unit, if_pos (Name.starts_of_append plainRest unitInside unit),
      Name.scan_of_append plainRest unitInside]
  · have noUnit : ¬ Name.starts rest = true := by
      intro starts
      have plainDropped := fun member => plainRest (List.mem_append_left more member)
      exact unit (Name.starts_append_of_starts plainDropped starts more)
    rw [if_neg unit, if_neg noUnit]

theorem continuesHash_cons (first : Char) (rest : List Char) :
    continuesHash (first :: rest) =
      (Name.starts (first :: rest) || (first.isDigit || first == '-')) :=
  rfl

theorem continuesHash_append_of_continues (plain : '\\' ∉ text)
    (continues : continuesHash text = true) (more : List Char) :
    continuesHash (text ++ more) = true := by
  match text with
  | [] => exact absurd continues (by decide)
  | first :: rest =>
      rw [continuesHash_cons, Bool.or_eq_true] at continues
      rw [List.cons_append, continuesHash_cons, Bool.or_eq_true]
      exact continues.imp_left fun starts => Name.starts_append_of_starts plain starts more

theorem continuesHash_of_append (plain : '\\' ∉ text ++ more)
    (inside : (Name.scan (text ++ more)).2 ≤ text.length)
    (continues : continuesHash (text ++ more) = true) : continuesHash text = true := by
  match text with
  | first :: rest =>
      rw [List.cons_append, continuesHash_cons, Bool.or_eq_true] at continues
      rw [continuesHash_cons, Bool.or_eq_true]
      exact continues.imp_left (Name.starts_of_append plain inside)
  | [] =>
      match more with
      | [] => exact continues
      | first :: rest =>
          rw [List.nil_append, continuesHash_cons, Bool.or_eq_true] at continues
          rcases continues with starts | mark
          · exact absurd (Name.scan_length_pos starts) (Nat.not_lt.mpr inside)
          · have part : isNamePart first = true := by
              simp only [isNamePart, Bool.or_assoc, mark, Bool.or_true]
            rw [List.nil_append, Name.scan, Name.scanFrom_part part] at inside
            exact absurd inside (Nat.not_succ_le_zero _)

theorem scanMark_hash (rest : List Char) :
    scanMark ('#' :: rest) =
      if continuesHash rest then (.hash, (Name.scan rest).2 + 1) else (.delimiter '#', 1) :=
  rfl

theorem scanMark_at (rest : List Char) :
    scanMark ('@' :: rest) =
      if Name.starts rest then (.atName, (Name.scan rest).2 + 1) else (.delimiter '@', 1) :=
  rfl

/-- Two characters that make one mark would not end within a text that has only the first. -/
theorem ne_pair_of_append {first mark sign : Char} {rest : List Char}
    (inside : (scanMark (first :: rest ++ more)).2 ≤ (first :: rest).length)
    (apart : ∀ tail, first = mark → rest = sign :: tail → False)
    (length : ∀ tail, 2 ≤ (scanMark (mark :: sign :: tail)).2) :
    ∀ tail, first = mark → rest ++ more = sign :: tail → False := by
  intro tail front behind
  rcases rest with _ | ⟨second, rest⟩
  · rw [List.nil_append] at behind
    rw [List.cons_append, List.nil_append, front, behind] at inside
    exact absurd inside (Nat.not_le.mpr (length tail))
  · rw [List.cons_append, List.cons.injEq] at behind
    exact apart rest front (by rw [behind.1])

/-- A mark that ends within a text is the same if the text ends there, as is a comment. -/
theorem scanMark_of_append (nonempty : text ≠ []) (plain : '\\' ∉ text ++ more)
    (goesOn : more ≠ []) (inside : (scanMark (text ++ more)).2 ≤ text.length) :
    scanMark text = scanMark (text ++ more) ∧
      ∀ body, text = '/' :: '*' :: body → ['*', '/'] <:+: body := by
  have ended : ∀ body, text = '/' :: '*' :: body → ['*', '/'] <:+: body := by
    rintro body rfl
    have closed := suffix_of_commentLength_le goesOn (by simpa [scanMark] using inside)
    exact closed.isInfix.trans (List.take_prefix _ _).isInfix
  refine ⟨?_, ended⟩
  fun_cases scanMark text with
  | case10 body => simp [scanMark, commentLength_append (ended body rfl) more]
  | case17 rest continues =>
      have plainRest := List.not_mem_of_not_mem_cons plain
      have plainText : '\\' ∉ rest := fun member => plainRest (List.mem_append_left _ member)
      rw [List.cons_append, scanMark_hash,
        if_pos (continuesHash_append_of_continues plainText continues more)] at inside ⊢
      rw [Name.scan_of_append plainRest (Nat.le_of_succ_le_succ inside)]
  | case18 rest stays =>
      rw [List.cons_append, scanMark_hash] at inside ⊢
      split
      · rename_i continues
        rw [if_pos continues] at inside
        exact absurd (continuesHash_of_append (List.not_mem_of_not_mem_cons plain)
          (Nat.le_of_succ_le_succ inside) continues) stays
      · rfl
  | case19 rest starts =>
      have plainRest := List.not_mem_of_not_mem_cons plain
      have plainText : '\\' ∉ rest := fun member => plainRest (List.mem_append_left _ member)
      rw [List.cons_append, scanMark_at,
        if_pos (Name.starts_append_of_starts plainText starts more)] at inside ⊢
      rw [Name.scan_of_append plainRest (Nat.le_of_succ_le_succ inside)]
  | case20 rest stays =>
      rw [List.cons_append, scanMark_at] at inside ⊢
      split
      · rename_i starts
        rw [if_pos starts] at inside
        exact absurd (Name.starts_of_append (List.not_mem_of_not_mem_cons plain)
          (Nat.le_of_succ_le_succ inside) starts) stays
      · rfl
  | case21 first rest _ _ _ _ _ _ _ _ _ comment markup dollar star caret bar tilde _ _ =>
      have pair : ∀ {mark sign : Char}, (∀ tail, first = mark → rest = sign :: tail → False) →
          (∀ tail, 2 ≤ (scanMark (mark :: sign :: tail)).2) →
            ∀ tail, first = mark → rest ++ more = sign :: tail → False :=
        ne_pair_of_append inside
      rw [List.cons_append]
      symm
      apply scanMark.eq_19 <;> try assumption
      · exact pair comment (fun tail => by simp [scanMark])
      · intro tail front behind
        have length : (scanMark (first :: rest ++ more)).2 = 4 := by
          rw [front, List.cons_append, behind]
          rfl
        rw [length] at inside
        rcases rest with _ | ⟨second, _ | ⟨third, _ | ⟨fourth, rest⟩⟩⟩
        · simp at inside
        · simp at inside
        · simp at inside
        · simp only [List.cons_append, List.cons.injEq] at behind
          exact markup rest front (by rw [behind.1, behind.2.1, behind.2.2.1])
      · exact pair dollar (fun tail => by simp [scanMark])
      · exact pair star (fun tail => by simp [scanMark])
      · exact pair caret (fun tail => by simp [scanMark])
      · exact pair bar (fun tail => by simp [scanMark])
      · exact pair tilde (fun tail => by simp [scanMark])
  | case22 => exact absurd rfl nonempty
  | _ => simp [scanMark]

theorem startsMarkupClose_append_of_starts (close : startsMarkupClose text = true)
    (more : List Char) : startsMarkupClose (text ++ more) = true := by
  rcases startsMarkupClose_iff.mp close with ⟨tail, rfl⟩
  rfl

theorem startsMarkupClose_of_append (inside : 3 ≤ text.length)
    (close : startsMarkupClose (text ++ more) = true) : startsMarkupClose text = true := by
  rcases startsMarkupClose_iff.mp close with ⟨tail, whole⟩
  match text with
  | first :: second :: third :: rest =>
      simp only [List.cons_append, List.cons.injEq] at whole
      rw [whole.1, whole.2.1, whole.2.2.1]
      rfl
  | [] => simp at inside
  | [_] => simp at inside
  | [_, _] => simp at inside

/-- A name that reads as `url` is spelled so, in some letter case. -/
theorem lower_take_of_function (plain : '\\' ∉ text) (function : (scanName text).1 = .function)
    (url : Text.lower (Name.scan text).1 = ['u', 'r', 'l']) :
    Text.lower (text.take (scanName text).2) = ['u', 'r', 'l', '('] := by
  have spelled : text.take (Name.scan text).2 = text.takeWhile isNamePart := by
    rw [Name.scan_eq_of_plain plain]
    exact (List.prefix_iff_eq_take.mp (List.takeWhile_prefix isNamePart)).symm
  have visible : (text.takeWhile isNamePart).map shown = text.takeWhile isNamePart := by
    rw [Name.scan_eq_of_plain plain] at url
    have noNull : '\x00' ∉ text.takeWhile isNamePart := by
      intro null
      have member := List.mem_map_of_mem (f := Char.toLower) (List.mem_map_of_mem (f := shown) null)
      rw [Text.lower] at url
      rw [url] at member
      exact absurd member (by decide)
    calc (text.takeWhile isNamePart).map shown
        = (text.takeWhile isNamePart).map id := List.map_congr_left fun character member => by
          have other : character ≠ '\x00' := fun null => noNull (null ▸ member)
          simp [shown, other]
      _ = text.takeWhile isNamePart := List.map_id _
  rw [scanName_eq] at function ⊢
  split at function
  · rename_i rest _
    rcases scanUrl_token 0 (rest.drop (rest.takeWhile isSpace).length) with kind | kind <;>
      simp [kind] at function
  · split at function
    · rename_i opened
      rw [Name.scan_eq_of_plain plain, visible] at url
      simp only [if_pos opened]
      rw [List.take_add_one, ← List.head?_drop, opened, spelled, Text.lower, List.map_append]
      rw [Text.lower] at url
      rw [url]
      rfl
    · simp at function

/--
A lexeme that ends within a text stays what it is when the text goes on in another way that
stays apart from it. A string that a newline cuts off needs the newline in sight, and a
function that an address in quotes starts with needs the quote.
-/
theorem scan_append_replace {other : List Char} (nonempty : text ≠ [])
    (plain : '\\' ∉ text ++ more) (goesOn : more ≠ []) (apart : Apart other)
    (inside : (scan (text ++ more)).2 ≤ text.length)
    (cutOff : (scan (text ++ more)).1 = .brokenString → (scan (text ++ more)).2 < text.length)
    (quoted : (scan (text ++ more)).1 = .function →
      Text.lower (text.take (scan (text ++ more)).2) = ['u', 'r', 'l', '('] →
        ∃ character ∈ text.drop (scan (text ++ more)).2, isSpace character = false) :
    scan (text ++ other) = scan (text ++ more) := by
  have plainText : '\\' ∉ text := fun member => plain (List.mem_append_left _ member)
  rcases List.exists_cons_of_ne_nil nonempty with ⟨first, rest, rfl⟩
  have plainRest := List.not_mem_of_not_mem_cons plainText
  by_cases space : isSpace first = true
  · simp [scan_cons, space]
  by_cases string : (first == '"' || first == '\'') = true
  · have scanned : ∀ after, scan (first :: rest ++ after) =
        lengthen 1 (scanString first 0 (rest ++ after)) := by
      intro after
      simp [scan_cons, space, string]
    simp only [scanned, lengthen_fst, lengthen_snd, List.length_cons,
      Nat.add_le_add_iff_right, Nat.add_lt_add_iff_right] at inside cutOff
    have ended := exists_end_of_scanString plainRest goesOn inside cutOff
    rw [scanned, scanned, scanString_append_of_end plainRest ended,
      scanString_append_of_end plainRest ended]
  have scanned : ∀ after, scan (first :: rest ++ after) =
      if Numeral.starts (first :: rest ++ after) then scanNumeric (first :: rest ++ after)
      else if startsMarkupClose (first :: rest ++ after) then (.markupClose, 3)
      else if Name.starts (first :: rest ++ after) then scanName (first :: rest ++ after)
      else scanMark (first :: rest ++ after) := by
    intro after
    simp [scan_cons, space, string]
  rw [scanned] at inside quoted
  rw [scanned, scanned, Numeral.starts_append apart.stops, startsMarkupClose_append apart.stops,
    Name.starts_append plainText apart.stops]
  by_cases numeral : Numeral.starts (first :: rest ++ more) = true
  · rw [if_pos numeral] at inside
    rcases scanNumeric_of_append nonempty plain inside with ⟨same, starts⟩
    rw [if_pos numeral, if_pos (starts ▸ numeral), scanNumeric_append plainText apart.stops, same]
  have noNumeral : ¬ Numeral.starts (first :: rest) = true :=
    fun starts => numeral (Numeral.starts_append_of_starts starts more)
  rw [if_neg numeral] at inside quoted
  rw [if_neg numeral, if_neg noNumeral]
  by_cases close : startsMarkupClose (first :: rest ++ more) = true
  · rw [if_pos close] at inside
    rw [if_pos close, if_pos (startsMarkupClose_of_append inside close)]
  have noClose : ¬ startsMarkupClose (first :: rest) = true :=
    fun starts => close (startsMarkupClose_append_of_starts starts more)
  rw [if_neg close] at inside quoted
  rw [if_neg close, if_neg noClose]
  by_cases name : Name.starts (first :: rest ++ more) = true
  · rw [if_pos name] at inside quoted
    have within := le_trans (length_scan_le_scanName (first :: rest ++ more)) inside
    have quotedName : Text.lower (Name.scan (first :: rest ++ more)).1 = ['u', 'r', 'l'] →
        (scanName (first :: rest ++ more)).1 = .function →
          ∃ character ∈ (first :: rest).drop (scanName (first :: rest ++ more)).2,
            isSpace character = false := by
      intro url function
      have spelled := lower_take_of_function plain function url
      rw [List.take_append_of_le_length inside] at spelled
      exact quoted function spelled
    rcases scanName_of_append plain goesOn inside quotedName with ⟨same, ended⟩
    rw [if_pos name, if_pos (Name.starts_of_append plain within name),
      scanName_append plainText apart.stops ended, same]
  have noName : ¬ Name.starts (first :: rest) = true :=
    fun starts => name (Name.starts_append_of_starts plainText starts more)
  rw [if_neg name] at inside
  rw [if_neg name, if_neg noName]
  rcases scanMark_of_append nonempty plain goesOn inside with ⟨same, ended⟩
  rw [scanMark_append nonempty plainText apart.stops ended, same]

theorem isClosed_scanString_of_append {quote : Char} (plain : '\\' ∉ text) (goesOn : more ≠ [])
    (inside : (scanString quote 0 (text ++ more)).2 ≤ text.length)
    (unbroken : (scanString quote 0 (text ++ more)).1 ≠ .brokenString) :
    Lexeme.isClosed ⟨(scanString quote 0 (text ++ more)).1,
      quote :: text.take (scanString quote 0 (text ++ more)).2⟩ = true := by
  have string := (scanString_token quote 0 (text ++ more)).resolve_right unbroken
  have last := getLast?_of_scanString plain goesOn inside string
  have quoted : text.take (scanString quote 0 (text ++ more)).2 ≠ [] := by
    intro nothing
    simp [nothing] at last
  have longer := List.length_pos_of_ne_nil quoted
  rw [List.length_take] at longer
  simp [Lexeme.isClosed, string, List.getLast?_cons, last, longer]

theorem isClosed_scanName_of_append (plain : '\\' ∉ text) (goesOn : more ≠ [])
    (inside : (scanName (text ++ more)).2 ≤ text.length) :
    Lexeme.isClosed ⟨(scanName (text ++ more)).1, text.take (scanName (text ++ more)).2⟩ =
      true := by
  rw [scanName_eq] at inside ⊢
  rcases address : address? (text ++ more) with _ | rest
  · simp only
    split <;> rfl
  · simp only [address, lengthen_snd, lengthen_fst] at inside ⊢
    have front := drop_of_address address
    rw [List.drop_append_of_le_length (by omega)] at front
    rcases ahead : text.drop (Name.scan (text ++ more)).2 with _ | ⟨first, tail⟩
    · have reached := List.drop_eq_nil_iff.mp ahead
      omega
    rw [ahead, List.cons_append, List.cons.injEq] at front
    rcases front with ⟨rfl, rfl⟩
    have length := congrArg List.length ahead
    rw [List.length_drop, List.length_cons] at length
    have plainTail : '\\' ∉ tail := by
      intro member
      apply plain
      apply List.mem_of_mem_drop (i := (Name.scan (text ++ more)).2)
      rw [ahead]
      exact List.mem_cons_of_mem _ member
    rcases scanUrl_of_append plainTail goesOn (by omega) with ⟨last, _, _⟩
    have spelled : (text.take ((scanUrl 0 ((tail ++ more).drop
        ((tail ++ more).takeWhile isSpace).length)).2 + ((Name.scan (text ++ more)).2 + 1 +
          ((tail ++ more).takeWhile isSpace).length))).getLast? = some ')' := by
      rw [show ∀ url name gap : Nat, url + (name + 1 + gap) = name + ((gap + url) + 1) by omega,
        List.take_add, ahead, List.take_succ_cons, List.getLast?_append, List.getLast?_cons, last]
      rfl
    rcases scanUrl_token 0 ((tail ++ more).drop ((tail ++ more).takeWhile isSpace).length)
      with kind | kind <;> simp [Lexeme.isClosed, kind, spelled]

/-- Nothing but the end of a text ends a lexeme that is neither closed nor a cut off string. -/
theorem isClosed_of_append (plain : '\\' ∉ text ++ more) (goesOn : more ≠ [])
    (inside : (scan (text ++ more)).2 ≤ text.length)
    (unbroken : (scan (text ++ more)).1 ≠ .brokenString) :
    Lexeme.isClosed ⟨(scan (text ++ more)).1, text.take (scan (text ++ more)).2⟩ = true := by
  have plainText : '\\' ∉ text := fun member => plain (List.mem_append_left _ member)
  refine scan_cases (motive := fun whole scanned => whole = text ++ more →
    scanned.2 ≤ text.length → scanned.1 ≠ .brokenString →
      Lexeme.isClosed ⟨scanned.1, text.take scanned.2⟩ = true) ?_ ?_ ?_ ?_ ?_ ?_
    (by simp [goesOn]) rfl inside unbroken
  · intro first rest _ _ _ _
    rfl
  · intro quote rest _ whole inside unbroken
    rcases text with _ | ⟨first, text⟩
    · simp at inside
    · rw [List.cons_append, List.cons.injEq] at whole
      rcases whole with ⟨rfl, rfl⟩
      rw [lengthen_snd, List.length_cons, Nat.add_le_add_iff_right] at inside
      rw [lengthen_snd, List.take_succ_cons]
      exact isClosed_scanString_of_append (List.not_mem_of_not_mem_cons plainText) goesOn inside
        unbroken
  · intro whole _ _ _ _
    rcases scanNumeric_token whole with ⟨numeral, kind | kind | ⟨unit, kind⟩⟩ <;> rw [kind] <;> rfl
  · intro rest _ _ _
    rfl
  · rintro _ _ rfl inside _
    exact isClosed_scanName_of_append plainText goesOn inside
  · intro first rest _
    fun_cases scanMark (first :: rest) with
    | case10 body =>
        intro whole inside _
        rw [lengthen_snd] at inside
        rcases text with _ | ⟨slash, _ | ⟨star, text⟩⟩
        · simp at inside
        · simp at inside
        · simp only [List.cons_append, List.cons.injEq] at whole
          rcases whole with ⟨rfl, rfl, rfl⟩
          simp only [List.length_cons, Nat.add_le_add_iff_right] at inside
          exact List.isSuffixOf_iff_suffix.mpr (suffix_of_commentLength_le goesOn inside)
    | _ => exact fun _ _ _ => rfl

end Token

end MediaQuery
