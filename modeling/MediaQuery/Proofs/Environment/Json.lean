import Mathlib.Data.List.Forall2
import MediaQuery.Environment.Json
import MediaQuery.Proofs.Environment.Insertion
import MediaQuery.Proofs.Json.Accuracy
import MediaQuery.Proofs.Json.Grammar

/-!
# What is loaded from a JSON text

A text loads exactly if it is written as an object and each of its members is an entry: a truth
value, a finite number or a string that has a text. What is loaded is the environment of these
entries in their order. So all ways to build an environment agree, and a single member of another
kind refuses the text, even one whose key comes again. A number is held as the number nearest to
what is written if it has few digits, and close to it however many it has.
-/

namespace MediaQuery

/-- Whether a value is a truth value, a number or a string. -/
def Json.isScalar : Json → Bool
  | .bool _ => true
  | .number _ => true
  | .string _ => true
  | _ => false

namespace FeatureValue

/-- The kinds of value that a JSON value is tried as, one after the other. -/
def tries : List (Json → Option FeatureValue) :=
  [fun | .bool value => some (.bool value) | _ => none,
    fun | .number numeral => numeral.jsonValue?.map .number | _ => none,
    fun | .string spelled => spelled.map .text | _ => none]

/-- A value that one of the tries takes is held as that, in whatever order they are made. -/
theorem ofJson?_eq_some_iff {value : Json} {held : FeatureValue} :
    ofJson? value = some held ↔ ∃ read ∈ tries, read value = some held := by
  cases value <;> simp [tries, ofJson?]

end FeatureValue

namespace Environment

/-- The entry that a member of an object is, if its key has a text and its value can be held. -/
inductive IsEntry : Option String × Json → String × FeatureValue → Prop
  | bool (name : String) (value : Bool) : IsEntry (some name, .bool value) (name, .bool value)
  | number {name : String} {numeral : Numeral} {value : Float}
      (finite : numeral.jsonValue? = some value) :
      IsEntry (some name, .number numeral) (name, .number value)
  | text (name text : String) : IsEntry (some name, .string (some text)) (name, .text text)

section Members

variable {member : Option String × Json} {entry : String × FeatureValue}
  {members : List (Option String × Json)} {entries : List (String × FeatureValue)}

theorem IsEntry.isScalar (isEntry : IsEntry member entry) : member.2.isScalar = true := by
  cases isEntry <;> rfl

theorem entryOfMember?_eq_some_iff : entryOfMember? member = some entry ↔ IsEntry member entry := by
  constructor
  · intro found
    rcases member with ⟨_ | name, value⟩
    · cases found
    · rcases Option.map_eq_some_iff.mp found with ⟨held, foundValue, rfl⟩
      rcases FeatureValue.ofJson?_eq_some_iff.mp foundValue with ⟨read, member, taken⟩
      simp only [FeatureValue.tries, List.mem_cons, List.not_mem_nil, or_false] at member
      rcases member with rfl | rfl | rfl
      · cases value with
        | bool value =>
            cases taken
            exact .bool name value
        | _ => cases taken
      · cases value with
        | number numeral =>
            rcases Option.map_eq_some_iff.mp taken with ⟨size, finite, rfl⟩
            exact .number finite
        | _ => cases taken
      · cases value with
        | string spelled =>
            rcases Option.map_eq_some_iff.mp taken with ⟨text, rfl, rfl⟩
            exact .text name text
        | _ => cases taken
  · rintro (⟨name, value⟩ | finite | ⟨name, text⟩)
    · rfl
    · simp only [entryOfMember?, FeatureValue.ofJson?, finite, Option.map_some]
    · rfl

/-- The members of an object are entries exactly if each of them is one. -/
theorem mapM_entryOfMember?_eq_some_iff :
    members.mapM entryOfMember? = some entries ↔ List.Forall₂ IsEntry members entries := by
  induction members generalizing entries with
  | nil => simp [eq_comm]
  | cons member rest ih =>
      rw [List.mapM_cons, List.forall₂_cons_left_iff]
      simp only [Option.bind_eq_bind, Option.pure_def, Option.bind_eq_some_iff,
        entryOfMember?_eq_some_iff, ih, Option.some.injEq]
      constructor
      · rintro ⟨entry, isEntry, others, areEntries, rfl⟩
        exact ⟨entry, others, isEntry, areEntries, rfl⟩
      · rintro ⟨entry, others, isEntry, areEntries, rfl⟩
        exact ⟨entry, isEntry, others, areEntries, rfl⟩

theorem isScalar_of_mem (areEntries : List.Forall₂ IsEntry members entries) :
    ∀ member ∈ members, member.2.isScalar = true := by
  induction areEntries with
  | nil => simp
  | cons isEntry _ ih => exact List.forall_mem_cons.mpr ⟨isEntry.isScalar, ih⟩

/-- What holds an environment is an object of entries. -/
theorem ofJson?_eq_some_iff {value : Json} {environment : Environment} :
    ofJson? value = some environment ↔
      ∃ members entries, value = .object members ∧ List.Forall₂ IsEntry members entries ∧
        environment = ofList entries := by
  cases value with
  | object members =>
      rw [ofJson?, Option.map_eq_some_iff]
      constructor
      · rintro ⟨entries, found, rfl⟩
        exact ⟨members, entries, rfl, mapM_entryOfMember?_eq_some_iff.mp found, rfl⟩
      · rintro ⟨_, entries, ⟨⟩, areEntries, rfl⟩
        exact ⟨entries, mapM_entryOfMember?_eq_some_iff.mpr areEntries, rfl⟩
  | null | bool | number | string | array => simp [ofJson?]

end Members

section Loading

variable {text : String}

theorem load_eq_ok_iff_bind {environment : Environment} :
    load text = .ok environment ↔ (Json.ofString? text).bind ofJson? = some environment := by
  unfold load
  split
  · rename_i found
    rw [found, Except.ok.injEq, Option.some.injEq]
  · rename_i refused
    simp [refused]

/-- A text loads exactly if it is written as an object of entries. -/
theorem load_eq_ok_iff {environment : Environment} :
    load text = .ok environment ↔
      ∃ members entries, Json.IsText text.toList (.object members) ∧
        List.Forall₂ IsEntry members entries ∧ environment = ofList entries := by
  simp only [load_eq_ok_iff_bind, Option.bind_eq_some_iff, ofJson?_eq_some_iff,
    Json.ofString?_eq_some_iff]
  constructor
  · rintro ⟨_, isText, members, entries, rfl, areEntries, rfl⟩
    exact ⟨members, entries, isText, areEntries, rfl⟩
  · rintro ⟨members, entries, isText, areEntries, rfl⟩
    exact ⟨_, isText, members, entries, rfl, areEntries, rfl⟩

theorem eq_environment_of_load {error : LoadError} (refused : load text = .error error) :
    error = .environment := by
  unfold load at refused
  split at refused <;> cases refused
  rfl

/-- A text that is no object of truth values, numbers and strings is refused as a whole. -/
theorem load_eq_error
    (other : ¬ ∃ members, Json.IsText text.toList (.object members) ∧
      ∀ member ∈ members, member.2.isScalar = true) :
    load text = .error .environment := by
  cases outcome : load text with
  | error error => rw [eq_environment_of_load outcome]
  | ok environment =>
      rcases load_eq_ok_iff.mp outcome with ⟨members, entries, isText, areEntries, _⟩
      exact absurd ⟨members, isText, isScalar_of_mem areEntries⟩ other

end Loading

section Ways

variable {entries : List (String × FeatureValue)} {built : Environment}

/-- The environments that a row of entries makes, one for each way to build it. -/
def ways (entries : List (String × FeatureValue)) : List Environment :=
  [(empty.replaceAll entries).2, empty.includingAll entries, ofList entries,
    ofVector entries.toArray.toVector]

theorem get?_of_mem_ways (way : built ∈ ways entries) (name : String) :
    built.get? name = lastUnder? name entries := by
  have including : (empty.includingAll entries).get? name = lastUnder? name entries := by
    rw [get?_includingAll, get?_empty, Option.or_none]
  simp only [ways, List.mem_cons, List.not_mem_nil, or_false] at way
  rcases way with rfl | rfl | rfl | rfl
  · rw [replaceAll_snd, including]
  · exact including
  · exact get?_ofList name entries
  · exact get?_ofList name entries

theorem size_of_mem_ways (way : built ∈ ways entries) :
    built.size = (entries.map Prod.fst).toFinset.card := by
  apply size_eq_card
  intro name
  rw [get?_of_mem_ways way, isSome_lastUnder?_iff]

end Ways

/--
All ways to build an environment agree. A replacement hands back what was reported under its name
and changes that report only. Replacements, inclusions, a list and an array of the same entries all
report the last entry under each name, and as many features as there are names. A text loads
exactly if it is written as an object of entries, and then as the environment of these entries in
their order; a text that is anything else than an object of truth values, numbers and strings is
refused, with the message that says what was being loaded. A number up to the greatest power of ten
is not refused, and what a number is held as is close to what is written, and nearest to it if the
number has few digits.
-/
theorem ways_of_building_agree (entries : List (String × FeatureValue)) (text : String) :
    (∀ environment name value,
      (replace environment name value).1 = environment.get? name ∧
        ∀ other, (replace environment name value).2.get? other =
          if other = name then some value else environment.get? other) ∧
    (∀ built ∈ ways entries,
      (∀ name, built.get? name = lastUnder? name entries) ∧
        built.size = (entries.map Prod.fst).toFinset.card) ∧
    (∀ index, (empty.replaceAll entries).1[index]? =
      entries[index]?.map fun entry => lastUnder? entry.1 (entries.take index)) ∧
    (∀ environment, load text = .ok environment ↔
      ∃ members loaded, Json.IsText text.toList (.object members) ∧
        List.Forall₂ IsEntry members loaded ∧ environment = ofList loaded) ∧
    ((¬ ∃ members, Json.IsText text.toList (.object members) ∧
        ∀ member ∈ members, member.2.isScalar = true) →
      ∃ error, load text = .error error ∧
        error.message = "parsing media feature values from JSON") ∧
    ∀ written numeral, Json.IsNumber written numeral →
      (numeral.size ≤ 10 ^ 308 → ∃ value, numeral.jsonValue? = some value) ∧
      ∀ value, numeral.jsonValue? = some value →
        numeral.IsNearly value ∧ (numeral.IsShort → numeral.IsValue value) := by
  refine ⟨?_, ?_, ?_, ?_, ?_, ?_⟩
  · exact fun environment name value =>
      ⟨environment.replace_fst name value, environment.get?_including name value⟩
  · exact fun built way => ⟨get?_of_mem_ways way, size_of_mem_ways way⟩
  · intro index
    simp only [getElem?_replaceAll, get?_empty, Option.or_none]
  · exact fun environment => load_eq_ok_iff
  · exact fun other => ⟨.environment, load_eq_error other, rfl⟩
  · intro written numeral isNumber
    have decimal := isNumber.spells.digit_lt
    refine ⟨Numeral.exists_jsonValue? decimal, fun value found => ?_⟩
    exact ⟨Numeral.isNearly_of_jsonValue? decimal found, fun short => short.isValue found⟩

/-- A member that is null refuses a text although its key comes again. -/
theorem ways_of_building_agree_overwritten :
    (¬ ∃ members, Json.IsText "\x7b\"a\":null,\"a\":1\x7d".toList (.object members) ∧
      ∀ member ∈ members, member.2.isScalar = true) ∧
    (∃ error, load "\x7b\"a\":null,\"a\":1\x7d" = .error error ∧
      error.message = "parsing media feature values from JSON") ∧
    ∃ environment, load "\x7b\"a\":true, \"b\":800,\"a\":\"x\"\x7d" = .ok environment ∧
      environment.get? "a" = some (.text "x") ∧ environment.get? "b" = some (.number 800) ∧
        environment.size = 2 := by
  have isText : Json.IsText "\x7b\"a\":null,\"a\":1\x7d".toList
      (.object [(some "a", .null), (some "a", .number ⟨false, [1], [], none⟩)]) :=
    ⟨[.openObject, .string (some "a"), .colon, .null, .comma, .string (some "a"), .colon,
        .number ⟨false, [1], [], none⟩, .closeObject],
      Json.Token.isRow_of_ofText? (by decide +kernel),
      .object (.nextMember .null (.lastMember (.number _)))⟩
  have other : ¬ ∃ members, Json.IsText "\x7b\"a\":null,\"a\":1\x7d".toList (.object members) ∧
      ∀ member ∈ members, member.2.isScalar = true := by
    rintro ⟨members, isSame, scalars⟩
    cases isText.unique isSame
    exact absurd (scalars _ List.mem_cons_self) (by decide)
  have isLoaded : Json.IsText "\x7b\"a\":true, \"b\":800,\"a\":\"x\"\x7d".toList
      (.object [(some "a", .bool true), (some "b", .number ⟨false, [8, 0, 0], [], none⟩),
        (some "a", .string (some "x"))]) :=
    ⟨[.openObject, .string (some "a"), .colon, .bool true, .comma, .string (some "b"), .colon,
        .number ⟨false, [8, 0, 0], [], none⟩, .comma, .string (some "a"), .colon,
        .string (some "x"), .closeObject],
      Json.Token.isRow_of_ofText? (by decide +kernel),
      .object (.nextMember (.bool _) (.nextMember (.number _) (.lastMember (.string _))))⟩
  have finite : Numeral.jsonValue? ⟨false, [8, 0, 0], [], none⟩ = some 800 := by
    decide +kernel
  have agree := ways_of_building_agree [("a", .bool true), ("b", .number 800), ("a", .text "x")]
    "\x7b\"a\":true, \"b\":800,\"a\":\"x\"\x7d"
  have loaded := (agree.2.2.2.1 _).mpr ⟨_, _, isLoaded,
    .cons (.bool "a" true) (.cons (.number finite) (.cons (.text "a" "x") .nil)), rfl⟩
  rcases agree.2.1 _ (List.mem_cons_of_mem _ (List.mem_cons_of_mem _ List.mem_cons_self)) with
    ⟨reported, counted⟩
  refine ⟨other, (ways_of_building_agree [] _).2.2.2.2.1 other, _, loaded, ?_⟩
  exact ⟨reported "a", reported "b", counted⟩

end Environment

end MediaQuery
