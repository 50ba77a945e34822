import MediaQuery.Proofs.Query.Block
import MediaQuery.Proofs.Query.Comma

/-!
# Renderings of clauses

A clause can be written in many ways: with gaps of any length, with comments in
them, and in any letter case. The main statement is that every list of clauses is
read back from each text that it can be written as.
-/

namespace MediaQuery

open Text (Stops Gap)

namespace Character

/-- A character that starts or ends what encloses others, or belongs to a comment. -/
def isEnclosing (character : Char) : Bool :=
  character == '"' || character == '\'' || character == '(' || character == ')' ||
    character == '[' || character == ']' || character == '\x7b' || character == '\x7d' ||
      character == '*'

/-- A character of a value: a letter, a digit or one of five marks. -/
def isValuePart (character : Char) : Bool :=
  character.isAlpha || character.isDigit || character == '.' || character == '+' ||
    character == '-' || character == '%' || character == '/'

theorem isNameStart_of_isLower {character : Char} (small : character.isLower = true) :
    isNameStart character = true := by
  have alpha : character.isAlpha = true := Bool.or_eq_true_iff.mpr (Or.inr small)
  simp [isNameStart, alpha]

end Character

namespace Token

open Character

/-- A token that neither opens nor closes anything and needs no end. -/
structure IsFlat (token : Token) : Prop where
  level : ∀ brackets, token.nest brackets = brackets
  closed : ∀ text, Lexeme.isClosed ⟨token, text⟩ = true
  noComment : token ≠ .comment

theorem isFlat_scanMark {text : List Char} (nonempty : text ≠ [])
    (absent : ∀ mark, isEnclosing mark = true → mark ∉ text) : IsFlat (scanMark text).1 := by
  have noStar := absent '*' (by decide)
  have noRound := absent '(' (by decide)
  have noRoundEnd := absent ')' (by decide)
  have noSquare := absent '[' (by decide)
  have noSquareEnd := absent ']' (by decide)
  have noCurly := absent '\x7b' (by decide)
  have noCurlyEnd := absent '\x7d' (by decide)
  fun_cases scanMark text with
  | case1 => simp at noRound
  | case2 => simp at noRoundEnd
  | case3 => simp at noSquare
  | case4 => simp at noSquareEnd
  | case5 => simp at noCurly
  | case6 => simp at noCurlyEnd
  | case10 => simp at noStar
  | case22 => exact absurd rfl nonempty
  | _ => exact ⟨fun _ => rfl, fun _ => rfl, by simp⟩

/-- Where nothing encloses anything, all tokens are flat. -/
theorem isFlat_scan {text : List Char} (nonempty : text ≠ [])
    (flat : ∀ character ∈ text, isEnclosing character = false) : IsFlat (scan text).1 := by
  have absent : ∀ mark, isEnclosing mark = true → mark ∉ text := by
    intro mark encloses member
    rw [flat mark member] at encloses
    exact absurd encloses (by decide)
  refine scan_cases (motive := fun text scanned =>
    (∀ mark, isEnclosing mark = true → mark ∉ text) → IsFlat scanned.1)
    ?_ ?_ ?_ ?_ ?_ ?_ nonempty absent
  · intro first rest _ _
    exact ⟨fun _ => rfl, fun _ => rfl, by simp⟩
  · intro quote rest quoted absent
    rcases quoted with rfl | rfl
    · exact absurd (List.mem_cons_self ..) (absent '"' (by decide))
    · exact absurd (List.mem_cons_self ..) (absent '\'' (by decide))
  · intro text _ _
    rcases scanNumeric_token text with ⟨numeral, kind | kind | ⟨unit, kind⟩⟩ <;> rw [kind] <;>
      exact ⟨fun _ => rfl, fun _ => rfl, by simp⟩
  · intro rest _
    exact ⟨fun _ => rfl, fun _ => rfl, by simp⟩
  · intro text _ absent
    have noBracket : (text.drop (Name.scan text).2).head? ≠ some '(' := by
      intro opened
      have member := List.mem_of_mem_drop (List.mem_of_head? opened)
      exact absent '(' (by decide) member
    have noAddress : address? text = none := by
      rcases address : address? text with _ | rest
      · rfl
      · rw [drop_of_address address] at noBracket
        simp at noBracket
    rw [scanName_eq, noAddress, if_neg noBracket]
    exact ⟨fun _ => rfl, fun _ => rfl, by simp⟩
  · intro first rest _ absent
    exact isFlat_scanMark (List.cons_ne_nil _ _) absent

end Token

namespace Name

/-- A name in small letters, digits and hyphens that starts with a letter. -/
def isSimple (name : String) : Bool :=
  match name.toList with
  | first :: rest =>
      first.isLower && rest.all fun character =>
        character.isLower || character.isDigit || character == '-'
  | [] => false

theorem isWord_of_isSimple {name : String} (simple : isSimple name = true) :
    IsWord name.toList := by
  unfold isSimple at simple
  split at simple
  · rename_i first rest spelled
    rw [Bool.and_eq_true, List.all_eq_true] at simple
    have start := Character.isNameStart_of_isLower simple.1
    have noMark : ∀ {mark : Char}, mark.isLower = false → first ≠ mark := by
      rintro mark noLetter rfl
      rw [simple.1] at noLetter
      exact absurd noLetter (by decide)
    rw [spelled]
    refine ⟨?_, ?_, ?_⟩
    · rw [starts_cons (noMark (by decide)) (noMark (by decide)), start]
    · rintro character (_ | ⟨_, later⟩)
      · exact isNamePart_of_isNameStart start
      · have part := simple.2 character later
        simp only [Bool.or_eq_true, beq_iff_eq] at part
        rcases part with (small | digit) | rfl
        · exact isNamePart_of_isNameStart (Character.isNameStart_of_isLower small)
        · simp [Character.isNamePart, digit]
        · decide
    · rw [List.mem_cons]
      rintro (rfl | later)
      · exact absurd simple.1 (by decide)
      · exact absurd (simple.2 _ later) (by decide)
  · simp at simple

end Name

namespace FeatureTest

/-- A text of value characters, with spaces in between but not around. -/
def isSimpleValue (value : String) : Bool :=
  (value.toList.all fun character => Character.isValuePart character || character == ' ') &&
    value.toList.head?.any Character.isValuePart && value.toList.getLast?.any Character.isValuePart

/-- A well-formed test with a simple name and value, whose name shows its bound. -/
def isSimple (test : FeatureTest) : Bool :=
  !test.isMalformed && Name.isSimple test.name && test.value.all isSimpleValue &&
    (test.bound != .exact || Bound.split test.name == (.exact, test.name))

theorem isEnclosing_of_isValuePart {character : Char}
    (part : Character.isValuePart character = true ∨ character = ' ') :
    Character.isEnclosing character = false := by
  by_contra encloses
  simp only [Bool.not_eq_false, Character.isEnclosing, Bool.or_eq_true, beq_iff_eq] at encloses
  rcases encloses with (((((((rfl | rfl) | rfl) | rfl) | rfl) | rfl) | rfl) | rfl) | rfl <;>
    exact absurd part (by decide)

theorem isWhiteSpace_of_isValuePart {character : Char}
    (part : Character.isValuePart character = true) : Text.isWhiteSpace character = false := by
  have bounds : 37 ≤ character.toNat ∧ character.toNat ≤ 122 := by
    simp only [Character.isValuePart, Bool.or_eq_true, beq_iff_eq] at part
    rcases part with (((((alpha | digit) | rfl) | rfl) | rfl) | rfl) | rfl
    · rcases Bool.or_eq_true_iff.mp alpha with capital | small
      · have range : 65 ≤ character.toNat ∧ character.toNat ≤ 90 :=
          of_decide_eq_true capital
        omega
      · have range : 97 ≤ character.toNat ∧ character.toNat ≤ 122 :=
          (Bool.and_eq_true_iff.mp small).imp of_decide_eq_true of_decide_eq_true
        omega
    · have range : 48 ≤ character.toNat ∧ character.toNat ≤ 57 :=
        (Bool.and_eq_true_iff.mp digit).imp of_decide_eq_true of_decide_eq_true
      omega
    all_goals decide
  simp only [Text.isWhiteSpace, Bool.or_eq_false_iff, Bool.and_eq_false_iff,
    decide_eq_false_iff_not, beq_eq_false_iff_ne]
  omega

theorem body_of_isSimpleValue {value : String} (simple : isSimpleValue value = true) :
    Body value.toList := by
  simp only [isSimpleValue, Bool.and_eq_true, List.all_eq_true, Bool.or_eq_true, beq_iff_eq,
    Option.any_eq_true] at simple
  rcases simple with ⟨⟨parts, first, front, firstPart⟩, last, back, lastPart⟩
  have absent : ∀ mark, Character.isValuePart mark = false ∧ mark ≠ ' ' → mark ∉ value.toList := by
    rintro mark ⟨noPart, noSpace⟩ member
    rcases parts mark member with part | space
    · rw [noPart] at part
      exact absurd part (by decide)
    · exact noSpace space
  have nonempty : value.toList ≠ [] := by
    intro none
    simp [none] at front
  have trimmed : Text.IsTrimmed value.toList := by
    constructor
    · intro character member
      rw [front, Option.mem_some_iff] at member
      exact member ▸ isWhiteSpace_of_isValuePart firstPart
    · intro character member
      rw [back, Option.mem_some_iff] at member
      exact member ▸ isWhiteSpace_of_isValuePart lastPart
  have flat : ∀ lexeme ∈ Lexeme.ofText value.toList, Token.IsFlat lexeme.token := by
    intro lexeme member
    rcases Lexeme.exists_front_of_mem member with ⟨rest, suffix, found, rfl⟩
    exact Token.isFlat_scan found fun character inside =>
      isEnclosing_of_isValuePart (parts character (suffix.subset inside))
  exact {
    plain := absent _ (by decide)
    noComma := absent _ (by decide)
    nonempty
    trimmed
    solid := by
      intro lexeme member
      rw [Lexeme.ofText_eq_cons nonempty, List.head?_cons, Option.mem_some_iff] at member
      subst member
      have noComment := (flat _ (Lexeme.front_mem nonempty)).noComment
      by_contra solid
      have blank : (Lexeme.front value.toList).isBlank = true := by simpa using solid
      rcases Token.isBlank_cases blank with space | comment
      · have spaceFront := Token.isSpace_of_scan nonempty space first front
        have black := isWhiteSpace_of_isValuePart firstPart
        rw [Character.isWhiteSpace_of_isSpace spaceFront] at black
        exact absurd black (by decide)
      · exact noComment comment
    closed := fun lexeme member => (flat lexeme member).closed lexeme.text
    fills := Lexeme.Fills.of_forall fun lexeme member => (flat lexeme member).level _ }

theorem isWord_writtenName {test : FeatureTest} (isWord : Name.IsWord test.name.toList) :
    Name.IsWord test.writtenName.toList := by
  have written : test.writtenName.toList = test.bound.marker.toList ++ test.name.toList := by
    simp [writtenName]
  rw [written]
  cases test.bound with
  | exact => exact isWord
  | _ => exact isWord.append rfl (by decide) (by decide)

theorem split_writtenName {test : FeatureTest} (named : test.name ≠ "")
    (whole : test.bound = .exact → Bound.split test.name = (.exact, test.name)) :
    Bound.split test.writtenName = (test.bound, test.name) := by
  rcases test with ⟨bound, name, value, isMalformed⟩
  have nonempty : name.toList ≠ [] := by simpa using named
  rcases List.exists_cons_of_ne_nil nonempty with ⟨first, rest, spelled⟩
  have again : String.ofList (first :: rest) = name := by rw [← spelled, String.ofList_toList]
  cases bound with
  | exact => simpa [writtenName, Bound.marker] using whole rfl
  | min => simp [writtenName, Bound.marker, Bound.split, spelled, again]
  | max => simp [writtenName, Bound.marker, Bound.split, spelled, again]

theorem isNamed_of_isSimple {test : FeatureTest} (simple : test.isSimple = true) :
    test.IsNamed := by
  simp only [isSimple, Bool.and_eq_true, Bool.or_eq_true, bne_iff_ne, beq_iff_eq,
    Bool.not_eq_true'] at simple
  rcases simple with ⟨⟨⟨wellFormed, simpleName⟩, _⟩, whole⟩
  have isWord := Name.isWord_of_isSimple simpleName
  refine ⟨wellFormed, split_writtenName ?_ ?_, isWord_writtenName isWord⟩
  · intro none
    rw [none] at isWord
    exact isWord.ne_nil rfl
  · intro exact'
    exact whole.resolve_left (fun bounded => bounded exact')

theorem body_of_isSimple {test : FeatureTest} (simple : test.isSimple = true) {value : List Char}
    (hasValue : test.value = some (String.ofList value)) : Body value := by
  simp only [isSimple, Bool.and_eq_true, hasValue, Option.all_some] at simple
  have body := body_of_isSimpleValue simple.1.2
  rwa [String.toList_ofList] at body

/-- A test in its brackets, with gaps around what they hold and the name in any letter case. -/
inductive Written (test : FeatureTest) : List Char → Prop
  | name {lead name tail : List Char} (noValue : test.value = none) (leadGap : Gap lead)
      (cased : Text.lower name = test.writtenName.toList) (tailGap : Gap tail) :
      Written test ('(' :: (lead ++ (name ++ tail) ++ [')']))
  | value {lead name tail blanks value spaces : List Char}
      (hasValue : test.value = some (String.ofList value)) (leadGap : Gap lead)
      (cased : Text.lower name = test.writtenName.toList) (tailGap : Gap tail)
      (valueGap : Gap blanks) (white : ∀ character ∈ spaces, Character.isSpace character = true) :
      Written test
        ('(' :: (lead ++ (name ++ (tail ++ ([':'] ++ (blanks ++ (value ++ spaces))))) ++ [')']))

end FeatureTest

namespace Part

/-- A word in any letter case, or a test in its brackets. -/
inductive Written : Part → List Char → Prop
  | word {name : String} {text : List Char} (cased : Text.lower text = name.toList) :
      Written (.word name) text
  | test {tested : FeatureTest} {text : List Char} (written : tested.Written text) :
      Written (.test tested) text

/-- A part whose word or test is simple. -/
def isSimple : Part → Bool
  | .word name => Name.isSimple name
  | .test tested => tested.isSimple

theorem spells_of_written {part : Part} (simple : part.isSimple = true) {text : List Char}
    (written : part.Written text) : part.Spells text := by
  cases written with
  | word cased =>
      have isWord := Name.isWord_of_isSimple simple
      rw [← cased] at isWord
      exact spells_word (Name.isWord_of_lower isWord) (by rw [cased, String.ofList_toList])
  | test written =>
      have named := FeatureTest.isNamed_of_isSimple simple
      cases written with
      | name noValue leadGap cased tailGap => exact spells_name named noValue leadGap cased tailGap
      | value hasValue leadGap cased tailGap valueGap white =>
          exact spells_value named hasValue (FeatureTest.body_of_isSimple simple hasValue) leadGap
            cased tailGap valueGap white

theorem noComma_of_written {part : Part} (simple : part.isSimple = true) {text : List Char}
    (written : part.Written text) : ',' ∉ text := by
  have ofCased : ∀ {name written : List Char}, Name.IsWord written →
      Text.lower name = written → ',' ∉ name := by
    intro name written isWord cased
    exact (Name.isWord_of_lower (cased ▸ isWord)).not_mem (by decide)
  cases written with
  | word cased => exact ofCased (Name.isWord_of_isSimple simple) cased
  | test written =>
      have named := FeatureTest.isNamed_of_isSimple simple
      cases written with
      | name noValue leadGap cased tailGap =>
          simp [leadGap.noComma, ofCased named.isWord cased, tailGap.noComma]
      | value hasValue leadGap cased tailGap valueGap white =>
          have body := FeatureTest.body_of_isSimple simple hasValue
          simp [leadGap.noComma, ofCased named.isWord cased, tailGap.noComma, valueGap.noComma,
            body.noComma, (Gap.of_spaces white).noComma]

end Part

namespace Clause

/-- A clause whose names and tests are simple, its media type none of the words around it. -/
def isSimple (clause : Clause) : Bool :=
  (clause.mediaType.all fun name =>
      Name.isSimple name && name != "and" && name != "only" && name != "not") &&
    clause.tests.all FeatureTest.isSimple

/-- The ways of writing a clause: its parts one after the other, gaps around them. -/
def Written (clause : Clause) (text : List Char) : Prop :=
  ∃ gap rest, Gap gap ∧ Joined Part.Written clause.parts rest ∧ text = gap ++ rest

/-- Whether the media type of a clause, if it has one, fits that of the device. -/
def fitsType (clause : Clause) (environment : Environment) : Bool :=
  clause.mediaType.all fun name => name == "all" ||
    environment.mediaType?.all fun reported => reported.text? == some name

/-- Whether a clause holds in an environment. -/
def holds (clause : Clause) (environment : Environment) (options : MatchOptions) : Bool :=
  let fits := clause.fitsType environment &&
    clause.tests.all fun test => test.evaluate environment options
  if clause.qualifier == some .negation then !fits else fits

theorem evaluate_toQuery (clause : Clause) (environment : Environment) (options : MatchOptions) :
    clause.toQuery.evaluate environment options = clause.holds environment options := by
  have type : clause.toQuery.matchesType environment = clause.fitsType environment := by
    rcases clause with ⟨qualifier, _ | name, tests⟩
    · rfl
    · rcases reported : environment.mediaType? with _ | value <;>
        simp [toQuery, Query.matchesType, fitsType, reported]
  rw [Query.evaluate, type]
  rfl

theorem isSimple_parts {clause : Clause} (simple : clause.isSimple = true) :
    ∀ part ∈ clause.parts, part.isSimple = true := by
  simp only [isSimple, Bool.and_eq_true, List.all_eq_true] at simple
  apply @forall_mem_parts (fun part => part.isSimple = true) _ rfl rfl rfl
  · intro name member
    rw [Option.mem_def.mp member] at simple
    simp only [Option.all_some, Bool.and_eq_true] at simple
    exact simple.1.1.1.1
  · exact simple.2

theorem hasOwnType_of_isSimple {clause : Clause} (simple : clause.isSimple = true) :
    clause.HasOwnType := by
  intro name member
  simp only [isSimple, Option.mem_def.mp member, Option.all_some, Bool.and_eq_true,
    bne_iff_ne] at simple
  exact ⟨simple.1.1.1.2, fun _ => ⟨simple.1.1.2, simple.1.2⟩⟩

theorem ofText_of_written {clause : Clause} (simple : clause.isSimple = true) {text : List Char}
    (written : clause.Written text) : Query.ofText text = clause.toQuery := by
  rcases written with ⟨gap, rest, isGap, joined, rfl⟩
  exact ofText_eq (hasOwnType_of_isSimple simple) isGap
    (joined.mono fun part member text written =>
      Part.spells_of_written (isSimple_parts simple part member) written)

theorem noComma_of_written {clause : Clause} (simple : clause.isSimple = true)
    {text : List Char} (written : clause.Written text) : ',' ∉ text := by
  rcases written with ⟨gap, rest, isGap, joined, rfl⟩
  rw [List.mem_append, not_or]
  refine ⟨isGap.noComma, joined.not_mem fun part member text written =>
    Part.noComma_of_written (isSimple_parts simple part member) written⟩

end Clause

namespace QueryList

variable {clauses : List Clause} {texts : List (List Char)}

theorem map_ofText_of_written (simple : ∀ clause ∈ clauses, clause.isSimple = true)
    (written : List.Forall₂ Clause.Written clauses texts) :
    texts.map Query.ofText = clauses.map Clause.toQuery := by
  induction written with
  | nil => rfl
  | cons first _ ih =>
      rw [List.map_cons, List.map_cons, Clause.ofText_of_written (simple _ (by simp)) first,
        ih fun clause member => simple clause (List.mem_cons_of_mem _ member)]

theorem noComma_of_written (simple : ∀ clause ∈ clauses, clause.isSimple = true)
    (written : List.Forall₂ Clause.Written clauses texts) : ∀ text ∈ texts, ',' ∉ text := by
  induction written with
  | nil => simp
  | cons first _ ih =>
      rw [List.forall_mem_cons]
      exact ⟨Clause.noComma_of_written (simple _ (by simp)) first,
        ih fun clause member => simple clause (List.mem_cons_of_mem _ member)⟩

/--
Every list of clauses is read back from every text that it can be written as, and
the text holds in an environment exactly if one of the clauses does.
-/
theorem ofString_of_written (nonempty : clauses ≠ [])
    (simple : ∀ clause ∈ clauses, clause.isSimple = true)
    (written : List.Forall₂ Clause.Written clauses texts) :
    ofString (String.ofList ([','].intercalate texts)) = clauses.map Clause.toQuery ∧
      ∀ environment options,
        evaluateText (String.ofList ([','].intercalate texts)) environment options =
          clauses.any fun clause => clause.holds environment options := by
  have read : ofString (String.ofList ([','].intercalate texts)) = clauses.map Clause.toQuery := by
    rw [ofString, String.toList_ofList, Text.splitAtCommas_intercalate]
    · exact map_ofText_of_written simple written
    · intro none
      rw [none] at written
      exact nonempty (List.forall₂_nil_right_iff.mp written)
    · exact noComma_of_written simple written
  refine ⟨read, fun environment options => ?_⟩
  rw [evaluateText, read, evaluate, List.any_map]
  congr 1
  funext clause
  exact clause.evaluate_toQuery environment options

/-- A marked query with a bound, written in capital letters and with a comment. -/
theorem ofString_of_written_marked :
    ofString "ONLY tv/**/and (MIN-width: 1px)" =
        [Clause.toQuery ⟨some .only, some "tv", [⟨.min, "width", some "1px", false⟩]⟩] ∧
      ∀ environment options,
        evaluateText "ONLY tv/**/and (MIN-width: 1px)" environment options =
          [⟨some .only, some "tv", [⟨.min, "width", some "1px", false⟩]⟩].any
            fun clause : Clause => clause.holds environment options := by
  have only : Part.Written (.word "only") "ONLY".toList := Part.Written.word (by decide)
  have type : Part.Written (.word "tv") "tv".toList := Part.Written.word (by decide)
  have link : Part.Written (.word "and") "and".toList := Part.Written.word (by decide)
  have test : Part.Written (.test ⟨.min, "width", some "1px", false⟩) "(MIN-width: 1px)".toList :=
    Part.Written.test (@FeatureTest.Written.value _ [] "MIN-width".toList [] [' '] "1px".toList []
      (by decide) Gap.nil (by decide) Gap.nil (Gap.space (by decide) Gap.nil) (by simp))
  have space : Gap [' '] := Gap.space (by decide) Gap.nil
  have comment : Gap ['/', '*', '*', '/'] := @Gap.comment [] [] (by decide) (by decide) Gap.nil
  have joined := Joined.cons only space (List.cons_ne_nil _ _) (Joined.cons type comment
    (List.cons_ne_nil _ _) (Joined.cons link space (List.cons_ne_nil _ _)
      (Joined.last test Gap.nil)))
  have written : Clause.Written ⟨some .only, some "tv", [⟨.min, "width", some "1px", false⟩]⟩
      "ONLY tv/**/and (MIN-width: 1px)".toList := ⟨[], _, Gap.nil, joined, by decide⟩
  have read := ofString_of_written (List.cons_ne_nil _ _) (by decide)
    (List.Forall₂.cons written List.Forall₂.nil)
  rwa [List.intercalate_singleton, String.ofList_toList] at read

end QueryList

end MediaQuery
