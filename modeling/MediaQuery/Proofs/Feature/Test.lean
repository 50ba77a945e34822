import MediaQuery.Feature.Test
import MediaQuery.Proofs.Lexeme.Word

/-!
# Tests as they are read

What a test that is read from a block looks like: how its name, its bound and its value
belong together, and which of them are pieces of the block.
-/

namespace MediaQuery

namespace Bound

theorem split_suffix (name : String) : (split name).2.toList <:+ name.toList := by
  have whole := congrArg String.toList (marker_append_split name)
  rw [String.toList_append] at whole
  exact ⟨_, whole⟩

theorem split_ne {name : String} (nonempty : name ≠ "") : (split name).2 ≠ "" := by
  unfold split
  split
  · simp
  · simp
  · exact nonempty

end Bound

namespace FeatureTest

/-- What makes lexemes a feature test: a name, and a colon if anything solid follows. -/
theorem ofLexemes?_eq_some {lexemes : List Lexeme} {test : FeatureTest}
    (found : ofLexemes? lexemes = some test) :
    ∃ name spelled rest, lexemes = ⟨.ident name, spelled⟩ :: rest ∧
      (Lexeme.skipBlank rest = [] ∧
          test = ofWritten (String.ofList (Text.lower name)) none ∨
        ∃ colon value, Lexeme.skipBlank rest = ⟨.colon, colon⟩ :: value ∧
          test = ofWritten (String.ofList (Text.lower name)) (valueOf value)) := by
  unfold ofLexemes? at found
  split at found
  · rename_i name spelled rest
    refine ⟨name, spelled, rest, rfl, ?_⟩
    simp only at found
    split at found
    · rename_i nothing
      exact Or.inl ⟨nothing, (Option.some.inj found).symm⟩
    · rename_i colon value behind
      exact Or.inr ⟨colon, value, behind, (Option.some.inj found).symm⟩
    · simp at found
  · simp at found

/-- A block is a feature test, or some other text that is no white space. -/
theorem ofBlock?_eq_some {content : List Lexeme} {test : FeatureTest}
    (found : ofBlock? content = some test) :
    ofLexemes? (Lexeme.skipBlank content) = some test ∨
      ofLexemes? (Lexeme.skipBlank content) = none ∧
        Text.trim (Lexeme.textOf (Lexeme.skipBlank content)) ≠ [] ∧
        test = malformed
          (String.ofList (Text.trim (Lexeme.textOf (Lexeme.skipBlank content)))) := by
  unfold ofBlock? at found
  simp only at found
  split at found
  · rename_i inside isTest
    rw [← Option.some.inj found]
    exact Or.inl isTest
  · rename_i other
    right
    refine ⟨other, ?_⟩
    split at found
    · simp at found
    · rename_i nonempty
      exact ⟨nonempty, (Option.some.inj found).symm⟩

theorem valueOf_eq_some {lexemes : List Lexeme} {value : String}
    (found : valueOf lexemes = some value) :
    value.toList = Text.trim (Lexeme.textOf (Lexeme.skipBlank lexemes)) ∧ value ≠ "" := by
  unfold valueOf at found
  split at found
  · simp at found
  · rename_i nonempty
    rw [← Option.some.inj found, String.toList_ofList]
    exact ⟨rfl, by simpa using nonempty⟩

/--
What holds of every test that is read from a text. The name is there and in small
letters. A malformed test has nothing else, and no white space around its name; the
name of any other test shows its bound, and its value is a piece of the text with no
white space around it.
-/
structure IsReadFrom (source : List Char) (test : FeatureTest) : Prop where
  named : test.name ≠ ""
  small : ∀ character ∈ test.name.toList, character.isUpper = false
  malformed : test.isMalformed = true →
    test.bound = .exact ∧ test.value = none ∧ Text.IsTrimmed test.name.toList
  wellFormed : test.isMalformed = false → Bound.split test.writtenName = (test.bound, test.name)
  value : ∀ value ∈ test.value,
    value ≠ "" ∧ Text.IsTrimmed value.toList ∧ value.toList <:+: source

namespace IsReadFrom

variable {source : List Char} {test : FeatureTest}

theorem mono (isRead : test.IsReadFrom source) {whole : List Char} (inside : source <:+: whole) :
    test.IsReadFrom whole where
  named := isRead.named
  small := isRead.small
  malformed := isRead.malformed
  wellFormed := isRead.wellFormed
  value := by
    intro value member
    rcases isRead.value value member with ⟨nonempty, trimmed, within⟩
    exact ⟨nonempty, trimmed, within.trans inside⟩

theorem ofWritten {name : List Char} (nonempty : name ≠ []) {value : Option String}
    (isValue : ∀ text ∈ value,
      text ≠ "" ∧ Text.IsTrimmed text.toList ∧ text.toList <:+: source) :
    (ofWritten (String.ofList (Text.lower name)) value).IsReadFrom source where
  named := Bound.split_ne (by simpa [Text.lower] using nonempty)
  small := by
    intro character member
    have inside := (Bound.split_suffix (String.ofList (Text.lower name))).subset member
    rw [String.toList_ofList] at inside
    exact Text.isUpper_of_mem_lower character inside
  malformed := by
    intro malformed
    exact absurd malformed (by simp [FeatureTest.ofWritten])
  wellFormed := by
    intro _
    have written := Bound.marker_append_split (String.ofList (Text.lower name))
    rw [writtenName, FeatureTest.ofWritten, written]
  value := isValue

theorem ofMalformed {block : List Char} (nonempty : block ≠ []) (trimmed : Text.IsTrimmed block) :
    (FeatureTest.malformed (String.ofList block)).IsReadFrom source where
  named := by simpa [FeatureTest.malformed, Text.lower] using nonempty
  small := by
    intro character member
    rw [FeatureTest.malformed, String.toList_ofList, String.toList_ofList] at member
    exact Text.isUpper_of_mem_lower character member
  malformed := by
    intro _
    rw [FeatureTest.malformed, String.toList_ofList, String.toList_ofList]
    exact ⟨rfl, rfl, trimmed.lower⟩
  wellFormed := by
    intro wellFormed
    exact absurd wellFormed (by simp [FeatureTest.malformed])
  value := by simp [FeatureTest.malformed]

theorem of_ofLexemes? {lexemes : List Lexeme}
    (names : ∀ name spelled, ⟨.ident name, spelled⟩ ∈ lexemes → name ≠ [])
    (found : ofLexemes? lexemes = some test) : test.IsReadFrom (Lexeme.textOf lexemes) := by
  rcases ofLexemes?_eq_some found with ⟨name, spelled, rest, rfl, ends⟩
  have nonempty := names name spelled (List.mem_cons_self ..)
  rcases ends with ⟨_, rfl⟩ | ⟨colon, value, behind, rfl⟩
  · exact ofWritten nonempty (by simp)
  · apply ofWritten nonempty
    intro text member
    rcases valueOf_eq_some member with ⟨spelledValue, valued⟩
    rw [spelledValue]
    refine ⟨valued, Text.isTrimmed_trim _, ?_⟩
    have tail : Lexeme.skipBlank value <:+ ⟨.ident name, spelled⟩ :: rest := by
      have colonTail : ⟨.colon, colon⟩ :: value <:+ rest := by
        rw [← behind]
        exact List.dropWhile_suffix _
      exact ((List.dropWhile_suffix _).trans (List.suffix_cons _ _)).trans
        (colonTail.trans (List.suffix_cons _ _))
    exact (Text.trim_infix _).trans (Lexeme.textOf_infix tail.isInfix)

/-- What is read from a block is read from the text of the block. -/
theorem of_ofBlock? {content : List Lexeme}
    (names : ∀ name spelled, ⟨.ident name, spelled⟩ ∈ content → name ≠ [])
    (found : ofBlock? content = some test) : test.IsReadFrom (Lexeme.textOf content) := by
  have body : Lexeme.skipBlank content <:+ content := List.dropWhile_suffix _
  rcases ofBlock?_eq_some found with isTest | ⟨_, nonempty, rfl⟩
  · have isRead := of_ofLexemes?
      (fun name spelled member => names name spelled (body.subset member)) isTest
    exact isRead.mono (Lexeme.textOf_infix body.isInfix)
  · exact ofMalformed nonempty (Text.isTrimmed_trim _)

end IsReadFrom

end FeatureTest

end MediaQuery
