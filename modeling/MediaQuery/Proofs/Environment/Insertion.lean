import Mathlib.Data.Finset.Card
import Mathlib.Data.Finset.Dedup
import MediaQuery.Environment.Insertion

/-!
# What a built environment reports

Each insertion hands back what the environment reported under the name, and changes the report under
that name only. So every way to build an environment from a row of entries reports the value of the
last entry under each name, and as many features as there are names.
-/

namespace MediaQuery

namespace Environment

variable (environment : Environment) (name : String) (value : FeatureValue)

/-- The value of the last entry under a name. -/
def lastUnder? (name : String) (entries : List (String × FeatureValue)) : Option FeatureValue :=
  entries.reverse.lookup name

@[simp]
theorem lastUnder?_nil : lastUnder? name [] = none :=
  rfl

theorem lastUnder?_cons (entry : String × FeatureValue) (rest : List (String × FeatureValue)) :
    lastUnder? name (entry :: rest) =
      (lastUnder? name rest).or (if name = entry.1 then some entry.2 else none) := by
  rw [lastUnder?, List.reverse_cons, List.lookup_append, ← lastUnder?, List.lookup_cons]
  by_cases same : name = entry.1
  · simp [same]
  · have unequal : (name == entry.1) = false := by simpa using same
    simp [same, unequal]

theorem isSome_lookup_iff (entries : List (String × FeatureValue)) :
    (entries.lookup name).isSome = true ↔ name ∈ entries.map Prod.fst := by
  rw [List.lookup_isSome_iff, List.mem_map]
  simp only [beq_iff_eq, @eq_comm String name]

theorem isSome_lastUnder?_iff (entries : List (String × FeatureValue)) :
    (lastUnder? name entries).isSome = true ↔ name ∈ entries.map Prod.fst := by
  rw [lastUnder?, isSome_lookup_iff, List.map_reverse, List.mem_reverse]

/-- Two ways to say how many features are reported: by entries and by names. -/
theorem size_eq_card {names : List String}
    (reported : ∀ name, (environment.get? name).isSome = true ↔ name ∈ names) :
    environment.size = names.toFinset.card := by
  have same : names.toFinset = (environment.entries.map Prod.fst).toFinset := by
    ext name
    rw [List.mem_toFinset, List.mem_toFinset, ← reported name]
    exact isSome_lookup_iff name environment.entries
  rw [same, List.toFinset_card_of_nodup environment.distinct, List.length_map]
  rfl

section Replacement

theorem replaceIn_fst (entries : List (String × FeatureValue)) :
    (replaceIn name value entries).1 = entries.lookup name := by
  induction entries with
  | nil => rfl
  | cons entry rest ih =>
      rcases entry with ⟨key, old⟩
      rw [replaceIn, List.lookup_cons]
      by_cases same : key = name
      · simp [same]
      · have unequal : (name == key) = false := by simpa using Ne.symm same
        simp [same, unequal, ih]

theorem lookup_replaceIn (other : String) (entries : List (String × FeatureValue)) :
    (replaceIn name value entries).2.lookup other =
      if other = name then some value else entries.lookup other := by
  induction entries with
  | nil =>
      rw [replaceIn, List.lookup_cons]
      by_cases same : other = name
      · simp [same]
      · have unequal : (other == name) = false := by simpa using same
        simp [same, unequal]
  | cons entry rest ih =>
      rcases entry with ⟨key, old⟩
      rw [replaceIn]
      by_cases same : key = name
      · subst key
        by_cases found : other = name
        · simp [found]
        · have unequal : (other == name) = false := by simpa using found
          simp [List.lookup_cons, found, unequal]
      · by_cases found : other = key
        · simp [same, found]
        · have unequal : (other == key) = false := by simpa using found
          simp [List.lookup_cons, same, unequal, ih]

/-- A replacement hands back what was reported under the name. -/
theorem replace_fst : (environment.replace name value).1 = environment.get? name :=
  replaceIn_fst name value environment.entries

/-- A replacement decides the value under its name and leaves those under other names alone. -/
theorem get?_including (other : String) :
    (environment.including name value).get? other =
      if other = name then some value else environment.get? other :=
  lookup_replaceIn name value other environment.entries

theorem replaceAll_snd (entries : List (String × FeatureValue)) :
    (environment.replaceAll entries).2 = environment.includingAll entries := by
  induction entries generalizing environment with
  | nil => rfl
  | cons entry rest ih => exact ih (environment.including entry.1 entry.2)

end Replacement

section Run

/-- An operation that puts a value under a name and leaves the other names alone. -/
def Puts (put : Environment → String → FeatureValue → Environment) : Prop :=
  ∀ environment name value other,
    (put environment name value).get? other =
      if other = name then some value else environment.get? other

theorem puts_including : Puts including :=
  get?_including

theorem puts_insert : Puts insert :=
  fun environment name value other => environment.get?_insert name other value

/-- A row of insertions leaves the last value under each name, or what was there before. -/
theorem get?_foldl {put : Environment → String → FeatureValue → Environment} (puts : Puts put)
    (entries : List (String × FeatureValue)) :
    (entries.foldl (fun environment entry => put environment entry.1 entry.2) environment).get?
        name =
      (lastUnder? name entries).or (environment.get? name) := by
  induction entries generalizing environment with
  | nil => rfl
  | cons entry rest ih =>
      rw [List.foldl_cons, ih, puts, lastUnder?_cons]
      by_cases same : name = entry.1
      · simp [same]
      · simp [same]

theorem get?_includingAll (entries : List (String × FeatureValue)) :
    (environment.includingAll entries).get? name =
      (lastUnder? name entries).or (environment.get? name) :=
  get?_foldl environment name puts_including entries

theorem get?_ofList (entries : List (String × FeatureValue)) :
    (ofList entries).get? name = lastUnder? name entries := by
  have last := get?_foldl empty name puts_insert entries
  rw [get?_empty, Option.or_none] at last
  exact last

/-- In a row of replacements each hands back the last value before it under its name. -/
theorem getElem?_replaceAll (entries : List (String × FeatureValue)) (index : Nat) :
    (environment.replaceAll entries).1[index]? =
      entries[index]?.map fun entry =>
        (lastUnder? entry.1 (entries.take index)).or (environment.get? entry.1) := by
  induction entries generalizing environment index with
  | nil => simp [replaceAll]
  | cons entry rest ih =>
      rcases entry with ⟨key, first⟩
      cases index with
      | zero => simp [replaceAll, replace_fst]
      | succ index =>
          have later := ih (environment.including key first) index
          rw [replaceAll, List.getElem?_cons_succ, List.getElem?_cons_succ]
          refine later.trans ?_
          congr 1
          funext entry
          rw [List.take_succ_cons, lastUnder?_cons, get?_including]
          by_cases same : entry.1 = key
          · simp [same]
          · simp [same]

end Run

end Environment

end MediaQuery
