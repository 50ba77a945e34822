import MediaQuery.Proofs.Feature.Case
import MediaQuery.Proofs.Quantity.Comment

/-!
# Comments in a block

A block is read lexeme by lexeme up to the value of its test, which is kept as it is written
and read again where the test is evaluated. A comment is passed over in both, and what a
malformed block holds does not count. It does count in a keyword, which is compared letter by
letter, and it keeps white space that would be taken away from the ends of a value.
-/

namespace MediaQuery

namespace Lexeme

theorem skipBlank_append_of_eq_nil {front : List Lexeme} (blank : skipBlank front = [])
    (back : List Lexeme) : skipBlank (front ++ back) = skipBlank back :=
  skipBlank_append (by simpa [skipBlank] using blank) back

theorem skipBlank_append_of_ne_nil {front : List Lexeme} (stays : skipBlank front ≠ [])
    (back : List Lexeme) : skipBlank (front ++ back) = skipBlank front ++ back := by
  rw [skipBlank, List.dropWhile_append, if_neg (by simpa [skipBlank] using stays)]
  rfl

theorem skipBlank_comment {front : List Lexeme} (blank : skipBlank front = [])
    (body : List Char) (back : List Lexeme) :
    skipBlank (front ++ comment body :: back) = skipBlank (front ++ back) := by
  rw [skipBlank_append_of_eq_nil blank, skipBlank_append_of_eq_nil blank]
  rfl

end Lexeme

theorem toOption_bind {Value Image : Type} (read : Except ReadError Value)
    (next : Value → Except ReadError Image) :
    (read.bind next).toOption = read.toOption.bind fun value => (next value).toOption := by
  cases read <;> rfl

namespace Feature

variable {feature : Feature} {bound : Bound} {name text other : String}

theorem passesNumber_toOption_congr {ofText : String → Except ReadError Float}
    (same : (ofText text).toOption = (ofText other).toOption) (actual : Float) :
    (passesNumber ofText { bound, name, value := some text } actual).toOption =
      (passesNumber ofText { bound, name, value := some other } actual).toOption := by
  simp only [passesNumber, toOption_map, same]

theorem passesInteger_toOption_congr
    (same : (integerOfText text).toOption = (integerOfText other).toOption)
    (actual : FeatureValue) :
    (feature.passesInteger { bound, name, value := some text } actual).toOption =
      (feature.passesInteger { bound, name, value := some other } actual).toOption := by
  simp only [passesInteger]
  cases actual.toInteger with
  | error error => rfl
  | ok count => simp only [toOption_map, same]

/-- What a value of a test spells is all that counts of it, unless it is a keyword. -/
theorem passes_toOption_congr (measured : feature.kind ≠ .keyword)
    (alike : Reader.Alike text.toList other.toList) (actual : FeatureValue) :
    (feature.passes { bound, name, value := some text } actual).toOption =
      (feature.passes { bound, name, value := some other } actual).toOption := by
  unfold passes
  cases kind : feature.kind with
  | length =>
      simp only [toOption_bind, passesNumber_toOption_congr (pixelsOfText_congr alike)]
  | ratio =>
      simp only [toOption_bind, passesNumber_toOption_congr (decimalOfText_congr alike)]
  | resolution =>
      simp only [toOption_bind, passesNumber_toOption_congr (dotsPerInchOfText_congr alike)]
  | integer => exact passesInteger_toOption_congr (integerOfText_congr alike) actual
  | keyword => exact absurd kind measured

end Feature

namespace FeatureTest

open Lexeme

theorem accepts_iff_exists {test : FeatureTest} {actual : FeatureValue} :
    test.accepts actual = true ↔ ∃ feature, Feature.ofName? test.name = some feature ∧
      (feature.passes test actual).toOption = some true := by
  unfold accepts
  rcases Feature.ofName? test.name with _ | feature
  · simp
  · rcases passed : feature.passes test actual with _ | result <;> simp [passed, Except.toOption]

/-- Of the value that a test compares with, a test only depends on what that value spells. -/
theorem evaluate_congr_of_alike {written text other : String}
    (measured : ∀ feature ∈ Feature.ofName? (Bound.split written).2, feature.kind ≠ .keyword)
    (alike : Reader.Alike text.toList other.toList) (environment : Environment)
    (options : MatchOptions) :
    (ofWritten written (some text)).evaluate environment options =
      (ofWritten written (some other)).evaluate environment options := by
  have accepts : ∀ actual, (ofWritten written (some text)).accepts actual =
      (ofWritten written (some other)).accepts actual := by
    intro actual
    rw [Bool.eq_iff_iff, accepts_iff_exists, accepts_iff_exists]
    refine exists_congr fun feature => and_congr_right fun known => ?_
    simp only [ofWritten, Feature.passes_toOption_congr (measured feature known) alike]
  simp only [evaluate, accepts]
  rfl

/-- The name and what is read of the value of a test, where lexemes end in its value. -/
def begunValue? (lexemes : List Lexeme) : Option (String × List Lexeme) :=
  match skipBlank lexemes with
  | ⟨.ident name, _⟩ :: rest =>
      match skipBlank rest with
      | ⟨.colon, _⟩ :: value =>
          match skipBlank value with
          | [] => none
          | begun => some (String.ofList (Text.lower name), begun)
      | _ => none
  | _ => none

theorem begunValue?_eq_some {lexemes begun : List Lexeme} {written : String}
    (found : begunValue? lexemes = some (written, begun)) :
    ∃ name spelled rest colon value, skipBlank lexemes = ⟨.ident name, spelled⟩ :: rest ∧
      skipBlank rest = ⟨.colon, colon⟩ :: value ∧ skipBlank value = begun ∧ begun ≠ [] ∧
      written = String.ofList (Text.lower name) := by
  unfold begunValue? at found
  split at found
  · rename_i name spelled rest named
    split at found
    · rename_i colon value behind
      split at found
      · cases found
      · rename_i nonempty
        cases found
        exact ⟨name, spelled, rest, colon, value, named, behind, rfl, nonempty, rfl⟩
    · cases found
  · cases found

theorem begunValue?_suffix {lexemes begun : List Lexeme} {written : String}
    (found : begunValue? lexemes = some (written, begun)) : begun <:+ lexemes := by
  rcases begunValue?_eq_some found with
    ⟨name, spelled, rest, colon, value, named, behind, rfl, -, -⟩
  have ofRest : ⟨.colon, colon⟩ :: value <:+ rest := behind ▸ List.dropWhile_suffix isBlank
  have ofLexemes : ⟨.ident name, spelled⟩ :: rest <:+ lexemes :=
    named ▸ List.dropWhile_suffix isBlank
  have ofValue : skipBlank value <:+ value := List.dropWhile_suffix isBlank
  exact ((ofValue.trans (List.suffix_cons _ _)).trans ofRest).trans
    ((List.suffix_cons _ _).trans ofLexemes)

theorem begunValue?_cons {lexemes begun : List Lexeme} {written : String}
    (found : begunValue? lexemes = some (written, begun)) :
    ∃ first rest, begun = first :: rest ∧ first.isBlank = false := by
  rcases begunValue?_eq_some found with ⟨-, -, -, -, value, -, -, begins, nonempty, -⟩
  rcases List.exists_cons_of_ne_nil nonempty with ⟨first, rest, rfl⟩
  exact ⟨first, rest, rfl, isBlank_head?_skipBlank value first (by simp [begins])⟩

variable {inside ahead : List Lexeme} {body : List Char}

theorem valueOf_comment (blank : skipBlank inside = []) :
    valueOf (inside ++ comment body :: ahead) = valueOf (inside ++ ahead) := by
  rw [valueOf, valueOf, skipBlank_comment blank]

/-- Where no value is begun, a comment does not change what test follows. -/
theorem ofLexemes?_comment (notBegun : begunValue? inside = none) :
    ofLexemes? (skipBlank (inside ++ comment body :: ahead)) =
      ofLexemes? (skipBlank (inside ++ ahead)) := by
  rcases started : skipBlank inside with _ | ⟨⟨token, spelled⟩, rest⟩
  · rw [skipBlank_comment started]
  have stays : skipBlank inside ≠ [] := by simp [started]
  rw [skipBlank_append_of_ne_nil stays, skipBlank_append_of_ne_nil stays, started]
  simp only [List.cons_append]
  cases token with
  | ident name =>
      simp only [ofLexemes?]
      rcases named : skipBlank rest with _ | ⟨⟨token, spelled⟩, value⟩
      · rw [skipBlank_comment named]
      have stays : skipBlank rest ≠ [] := by simp [named]
      rw [skipBlank_append_of_ne_nil stays, skipBlank_append_of_ne_nil stays, named]
      simp only [List.cons_append]
      cases token with
      | colon =>
          have blank : skipBlank value = [] := by
            by_contra begun
            rcases List.exists_cons_of_ne_nil begun with ⟨first, others, begun⟩
            simp [begunValue?, started, named, begun] at notBegun
          simp only [valueOf_comment blank]
      | _ => rfl
  | _ => rfl

/-- Where a value is begun, it goes on to the end of the block. -/
theorem ofLexemes?_of_begunValue? {begun : List Lexeme} {written : String}
    (found : begunValue? inside = some (written, begun))
    (starts : ∀ character ∈ (textOf begun).head?, Text.isWhiteSpace character = false)
    (nonempty : textOf begun ≠ []) (back : List Lexeme) :
    ofLexemes? (skipBlank (inside ++ back)) =
      some (ofWritten written (some (String.ofList (Text.trim (textOf (begun ++ back)))))) := by
  rcases begunValue?_eq_some found with
    ⟨name, spelled, rest, colon, value, named, behind, begins, stays, rfl⟩
  have remains : Text.trim (textOf (begun ++ back)) ≠ [] := by
    rcases List.exists_cons_of_ne_nil nonempty with ⟨first, others, text⟩
    apply Text.trim_ne_nil
    refine ⟨first, ?_, starts first (by simp [text])⟩
    rw [textOf_append, text]
    simp
  have isValue : valueOf (value ++ back) =
      some (String.ofList (Text.trim (textOf (begun ++ back)))) := by
    rw [valueOf, skipBlank_append_of_ne_nil (by rwa [begins]), begins]
    split
    · contradiction
    · rfl
  rw [skipBlank_append_of_ne_nil (by simp [named]), named, List.cons_append, ofLexemes?,
    skipBlank_append_of_ne_nil (by simp [behind]), behind, List.cons_append]
  simp only [isValue]

/--
Whether a comment behind the lexemes `inside` of a block makes no difference, where the
lexemes `ahead` go on to the end of the block. Within a value the comment is kept, which a
keyword shows. White space that would be taken away from around a value or a whole block
stays where the comment comes to stand outside of it.
-/
structure AdmitsComment (inside ahead : List Lexeme) : Prop where
  value : ∀ begun ∈ begunValue? inside,
    (∀ feature ∈ Feature.ofName? (Bound.split begun.1).2, feature.kind ≠ .keyword) ∧
      ∀ character ∈ (textOf begun.2).head?, Text.isWhiteSpace character = false
  edge : (∀ character ∈ textOf ahead, Text.isWhiteSpace character = true) →
    ∀ character ∈ ((textOf inside).rdropWhile Character.isSpace).getLast?,
      Text.isWhiteSpace character = false

theorem admitsComment_iff : AdmitsComment inside ahead ↔
    (∀ begun ∈ begunValue? inside,
      (∀ feature ∈ Feature.ofName? (Bound.split begun.1).2, feature.kind ≠ .keyword) ∧
        (textOf begun.2).head?.any Text.isWhiteSpace = false) ∧
    ((textOf ahead).all Text.isWhiteSpace = true →
      ((textOf inside).rdropWhile Character.isSpace).getLast?.any Text.isWhiteSpace = false) := by
  simp only [Option.any_eq_false, List.all_eq_true]
  exact ⟨fun admits => ⟨admits.value, admits.edge⟩, fun ⟨value, edge⟩ => ⟨value, edge⟩⟩

instance : Decidable (AdmitsComment inside ahead) :=
  decidable_of_iff _ admitsComment_iff.symm

section Insertion

variable {more : List Char} {environment : Environment} {options : MatchOptions}

theorem ofBlock?_of_some {test : FeatureTest}
    (found : ofLexemes? (skipBlank inside) = some test) : ofBlock? inside = some test := by
  rw [ofBlock?, found]

theorem all_evaluate_ofBlock?_of_none (other : ofLexemes? (skipBlank inside) = none)
    (black : ∃ character ∈ textOf (skipBlank inside), Text.isWhiteSpace character = false) :
    ((ofBlock? inside).all fun test => test.evaluate environment options) = false := by
  have remains := Text.trim_ne_nil black
  have isMalformed : ofBlock? inside =
      some (malformed (String.ofList (Text.trim (textOf (skipBlank inside))))) := by
    simp only [ofBlock?, other]
  rw [isMalformed]
  rfl

/-- Where a test or its value begins, no space stands, so the end of the block is the same. -/
theorem solid_of_gap {front rest : List Lexeme} {first : Lexeme} {after : List Char}
    (gap : Gap (front ++ first :: rest) after) (solid : first.isBlank = false) :
    (∃ character ∈ textOf (first :: rest), Character.isSpace character = false) ∧
      ((textOf (front ++ first :: rest)).rdropWhile Character.isSpace).getLast? =
        ((textOf (first :: rest)).rdropWhile Character.isSpace).getLast? := by
  have other : first.token ≠ .space := by
    intro space
    rw [Lexeme.isBlank, space] at solid
    exact absurd solid (by decide)
  rcases exists_cons_of_mem (gap.mem_ofText (by simp)) other with
    ⟨character, others, spelled, noSpace⟩
  have stays : ∃ character ∈ textOf (first :: rest), Character.isSpace character = false :=
    ⟨character, by simp [textOf_cons, spelled], noSpace⟩
  exact ⟨stays, by rw [textOf_append, Text.getLast?_rdropWhile_append stays]⟩

theorem exists_black_of_gap (gap : Gap inside (textOf ahead ++ more))
    (admits : AdmitsComment inside ahead) (stays : skipBlank inside ≠ []) :
    ∃ character ∈ textOf (skipBlank (inside ++ ahead)), Text.isWhiteSpace character = false := by
  rw [skipBlank_append_of_ne_nil stays, textOf_append]
  by_cases white : ∀ character ∈ textOf ahead, Text.isWhiteSpace character = true
  · rcases List.exists_cons_of_ne_nil stays with ⟨first, rest, started⟩
    have solid := isBlank_head?_skipBlank inside first (by simp [started])
    have edge := admits.edge white
    have parts : inside.takeWhile Lexeme.isBlank ++ first :: rest = inside :=
      started ▸ List.takeWhile_append_dropWhile
    rw [← parts] at gap edge
    rcases solid_of_gap gap solid with ⟨solidText, sameEdge⟩
    rw [sameEdge] at edge
    rcases Text.exists_black_of_edge edge solidText with ⟨character, member, black⟩
    exact ⟨character, List.mem_append_left _ (started ▸ member), black⟩
  · have black : ∃ character ∈ textOf ahead, Text.isWhiteSpace character = false := by
      simpa using white
    rcases black with ⟨character, member, black⟩
    exact ⟨character, List.mem_append_right _ member, black⟩

/-- In the value of a test, a comment changes nothing that the value spells. -/
theorem evaluate_ofBlock?_comment_of_begun {begun : List Lexeme} {written : String}
    (gap : Gap inside (textOf ahead ++ more)) (admits : AdmitsComment inside ahead)
    (value : begunValue? inside = some (written, begun)) (noEnd : ¬ ['*', '/'] <:+: body) :
    ((ofBlock? (inside ++ comment body :: ahead)).all fun test =>
        test.evaluate environment options) =
      (ofBlock? (inside ++ ahead)).all fun test => test.evaluate environment options := by
  rcases admits.value (written, begun) value with ⟨measured, starts⟩
  have edge := admits.edge
  rcases begunValue?_cons value with ⟨first, rest, rfl, solid⟩
  rcases begunValue?_suffix value with ⟨front, parts⟩
  rw [← parts] at gap edge
  rcases solid_of_gap gap solid with ⟨⟨character, member, _⟩, sameEdge⟩
  have nonempty : textOf (first :: rest) ≠ [] := List.ne_nil_of_mem member
  rw [sameEdge] at edge
  have alike := alike_trim_comment gap.of_append nonempty starts edge noEnd
  rw [ofBlock?_of_some (ofLexemes?_of_begunValue? value starts nonempty ahead),
    ofBlock?_of_some (ofLexemes?_of_begunValue? value starts nonempty (comment body :: ahead))]
  apply (evaluate_congr_of_alike measured _ environment options).symm
  rwa [String.toList_ofList, String.toList_ofList]

/-- A comment that a block admits leaves alone whether the test of the block holds. -/
theorem evaluate_ofBlock?_comment (gap : Gap inside (textOf ahead ++ more))
    (admits : AdmitsComment inside ahead) (noEnd : ¬ ['*', '/'] <:+: body) :
    ((ofBlock? (inside ++ comment body :: ahead)).all fun test =>
        test.evaluate environment options) =
      (ofBlock? (inside ++ ahead)).all fun test => test.evaluate environment options := by
  by_cases started : skipBlank inside = []
  · rw [ofBlock?, ofBlock?, skipBlank_comment started]
  rcases value : begunValue? inside with _ | ⟨written, begun⟩
  · have same := @ofLexemes?_comment inside ahead body value
    rcases found : ofLexemes? (skipBlank (inside ++ ahead)) with _ | test
    · rw [found] at same
      have black := exists_black_of_gap gap admits started
      have blackToo : ∃ character ∈ textOf (skipBlank (inside ++ comment body :: ahead)),
          Text.isWhiteSpace character = false := by
        rw [skipBlank_append_of_ne_nil started, textOf_append]
        exact ⟨'/', by simp [textOf_cons, comment], by decide⟩
      rw [all_evaluate_ofBlock?_of_none found black, all_evaluate_ofBlock?_of_none same blackToo]
    · rw [ofBlock?_of_some found, ofBlock?_of_some (same.trans found)]
  · exact evaluate_ofBlock?_comment_of_begun gap admits value noEnd

end Insertion

end FeatureTest

end MediaQuery
