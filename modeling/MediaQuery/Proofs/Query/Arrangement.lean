import Mathlib.Data.Finset.Basic
import Mathlib.Data.Finset.Dedup
import Mathlib.Data.Finset.Insert
import MediaQuery.Proofs.Query.Comma

/-!
# The arrangement of queries and tests

Which tests a query has counts for what it means, and not how they are arranged: in which order,
and how many times. The same is so for the queries of a list. The main statement says so of lists,
and of texts whose parts between the commas are rearranged.
-/

namespace MediaQuery

variable {environment : Environment} {options : MatchOptions}

namespace Query

/-- What counts of a query: whether it is negated, its media type, and the set of its tests. -/
def gist (query : Query) : Bool × String × Finset FeatureTest :=
  (query.negated, query.mediaType, query.tests.toFinset)

theorem evaluate_congr_of_gist {left right : Query} (same : left.gist = right.gist) :
    left.evaluate environment options = right.evaluate environment options := by
  simp only [gist, Prod.mk.injEq] at same
  rcases same with ⟨negated, typed, tests⟩
  have sameType : left.matchesType environment = right.matchesType environment := by
    rw [matchesType, matchesType, typed]
  have sameTests : left.tests.all (fun test => test.evaluate environment options) =
      right.tests.all fun test => test.evaluate environment options := by
    rw [Bool.eq_iff_iff, List.all_eq_true, List.all_eq_true]
    apply forall_congr'
    intro test
    rw [← List.mem_toFinset, tests, List.mem_toFinset]
  rw [evaluate, evaluate, negated, sameType, sameTests]

end Query

namespace QueryList

variable {left right : QueryList}

/-- What counts of a list of queries: the set of what counts of each. -/
def gists (list : QueryList) : Finset (Bool × String × Finset FeatureTest) :=
  (list.map Query.gist).toFinset

/-- A list holds if it has all that counts of a list that holds. -/
theorem evaluate_of_gists_subset (within : left.gists ⊆ right.gists)
    (holds : left.evaluate environment options = true) :
    right.evaluate environment options = true := by
  rcases List.any_eq_true.mp holds with ⟨query, member, queryHolds⟩
  have among : query.gist ∈ right.gists := by
    apply within
    exact List.mem_toFinset.mpr (List.mem_map_of_mem member)
  rcases List.mem_map.mp (List.mem_toFinset.mp among) with ⟨other, otherMember, same⟩
  rw [← Query.evaluate_congr_of_gist same] at queryHolds
  exact List.any_eq_true.mpr ⟨other, otherMember, queryHolds⟩

theorem evaluate_congr_of_gists (same : left.gists = right.gists) :
    left.evaluate environment options = right.evaluate environment options := by
  rw [Bool.eq_iff_iff]
  exact ⟨evaluate_of_gists_subset same.subset, evaluate_of_gists_subset same.symm.subset⟩

/-- The queries of texts without commas that commas join are read from these one by one. -/
theorem ofString_intercalate {parts : List (List Char)} (nonempty : parts ≠ [])
    (noComma : ∀ part ∈ parts, ',' ∉ part) :
    ofString (String.ofList ([','].intercalate parts)) = parts.map Query.ofText := by
  rw [ofString, String.toList_ofList, Text.splitAtCommas_intercalate nonempty noComma]

/-- Texts that commas part into the same texts have the same queries, in whatever order. -/
theorem gists_ofString_congr {text : String} {parts : List (List Char)}
    (same : ∀ part, part ∈ parts ↔ part ∈ Text.splitAtCommas text.toList) :
    (ofString (String.ofList ([','].intercalate parts))).gists = (ofString text).gists := by
  have nonempty : parts ≠ [] := by
    rcases List.exists_mem_of_ne_nil _ (Text.splitAtCommas_ne_nil text.toList) with ⟨part, member⟩
    exact List.ne_nil_of_mem ((same part).mpr member)
  have noComma : ∀ part ∈ parts, ',' ∉ part := fun part member =>
    Text.not_mem_of_mem_splitAtCommas ((same part).mp member)
  rw [ofString_intercalate nonempty noComma, ofString, gists, gists]
  ext counted
  simp only [List.mem_toFinset, List.mem_map, same]

/--
Lists of queries of which the same counts hold alike: the order and the repetition of queries and
of their tests mean nothing, and neither does the mark `only`. So a text means what its parts
between the commas mean in every other arrangement, where parts change places or are repeated.
-/
theorem evaluate_arranged :
    (∀ left right : QueryList, left.gists = right.gists → ∀ environment options,
      left.evaluate environment options = right.evaluate environment options) ∧
    ∀ (text : String) (parts : List (List Char)),
      (∀ part, part ∈ parts ↔ part ∈ Text.splitAtCommas text.toList) →
      ∀ environment options,
        evaluateText (String.ofList ([','].intercalate parts)) environment options =
          evaluateText text environment options :=
  ⟨fun _ _ same _ _ => evaluate_congr_of_gists same,
    fun _ _ same _ _ => evaluate_congr_of_gists (gists_ofString_congr same)⟩

/-- Two tests change places and one is repeated, and so do queries, of which one loses its mark. -/
theorem evaluate_arranged_repeated :
    let wide : FeatureTest := { bound := .min, name := "width", value := some "40em" }
    let colored : FeatureTest := { name := "color" }
    let screen : Query := { mediaType := "screen", tests := [wide, colored] }
    let print : Query := { negated := true, mediaType := "print" }
    let left : QueryList := [{ screen with markedOnly := true }, print]
    let right : QueryList := [print, { screen with tests := [colored, wide, colored] }, print]
    let text := "screen and (min-width: 40em), not print,(color"
    let parts := ["(color".toList, " not print".toList, "screen and (min-width: 40em)".toList,
      "(color".toList]
    ∀ environment options,
      (left.gists = right.gists ∧
        left.evaluate environment options = right.evaluate environment options) ∧
      (∀ part, part ∈ parts ↔ part ∈ Text.splitAtCommas text.toList) ∧
        evaluateText "(color, not print,screen and (min-width: 40em),(color" environment options =
          evaluateText text environment options := by
  intro wide colored screen print left right text parts environment options
  have same : left.gists = right.gists := by decide
  have sameParts : ∀ part, part ∈ parts ↔ part ∈ Text.splitAtCommas text.toList := by
    have split : Text.splitAtCommas text.toList = ["screen and (min-width: 40em)".toList,
        " not print".toList, "(color".toList] := by decide
    intro part
    rw [split]
    simp only [parts, List.mem_cons, List.not_mem_nil, or_false]
    tauto
  refine ⟨⟨same, ?_⟩, sameParts, ?_⟩
  · exact evaluate_arranged.1 left right same environment options
  · exact evaluate_arranged.2 text parts sameParts environment options

end QueryList

end MediaQuery
