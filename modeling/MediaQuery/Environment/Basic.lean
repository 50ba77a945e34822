import MediaQuery.Feature.Value

/-!
# Environments

An environment holds what a device reports: one value for each feature that it
names. The name `type` is kept for the media type.
-/

namespace MediaQuery

/-- The values that a device reports, no feature named twice. -/
structure Environment where
  entries : List (String × FeatureValue)
  distinct : (entries.map Prod.fst).Nodup

namespace Environment

/-- The environment that reports nothing. -/
def empty : Environment where
  entries := []
  distinct := by simp

/-- The value reported under a name. -/
def get? (environment : Environment) (name : String) : Option FeatureValue :=
  environment.entries.lookup name

/-- The entries under other names than the given one. -/
def others (environment : Environment) (name : String) : List (String × FeatureValue) :=
  environment.entries.filter fun entry => entry.1 != name

/-- An environment with a value under a name, in place of any that was there. -/
def insert (environment : Environment) (name : String) (value : FeatureValue) : Environment where
  entries := (name, value) :: environment.others name
  distinct := by
    rw [List.map_cons, List.nodup_cons]
    constructor
    · simp [others]
    · exact environment.distinct.sublist (List.filter_sublist.map Prod.fst)

@[simp]
theorem get?_empty (name : String) : empty.get? name = none := by
  simp [get?, empty]

theorem lookup_others (environment : Environment) {name other : String} (different : other ≠ name) :
    (environment.others name).lookup other = environment.get? other := by
  unfold others get?
  induction environment.entries with
  | nil => rfl
  | cons entry rest ih =>
      rcases entry with ⟨key, value⟩
      by_cases same : key = name
      · subst key
        have unequal : (other == name) = false := by simpa using different
        simp [List.lookup_cons, unequal, ih]
      · by_cases found : other = key
        · simp [same, found]
        · have unequal : (other == key) = false := by simpa using found
          simp [List.lookup_cons, same, unequal, ih]

/-- An insertion decides the value under its name and leaves those under other names alone. -/
theorem get?_insert (environment : Environment) (name other : String) (value : FeatureValue) :
    (environment.insert name value).get? other =
      if other = name then some value else environment.get? other := by
  by_cases same : other = name
  · simp [get?, insert, same]
  · have unequal : (other == name) = false := by simpa using same
    have kept := environment.lookup_others same
    simp [get?, insert, List.lookup_cons, same, unequal] at kept ⊢
    exact kept

/-- The environment of a list of entries; of several under one name the last counts. -/
def ofList (entries : List (String × FeatureValue)) : Environment :=
  entries.foldl (fun environment entry => environment.insert entry.1 entry.2) empty

/-- The number of features reported. -/
def size (environment : Environment) : Nat :=
  environment.entries.length

/-- Whether nothing is reported. -/
def isEmpty (environment : Environment) : Bool :=
  environment.entries.isEmpty

/-- The entries in the order of their names. -/
def sorted (environment : Environment) : List (String × FeatureValue) :=
  environment.entries.mergeSort fun left right => decide (left.1 ≤ right.1)

/-- The media type, if a value is reported for it that counts as present. -/
def mediaType? (environment : Environment) : Option FeatureValue :=
  (environment.get? "type").filter FeatureValue.isTruthy

/-- Whether two environments report equal values under the same names. -/
protected def beq (left right : Environment) : Bool :=
  left.size == right.size &&
    left.entries.all fun (name, value) => right.get? name == some value

instance : BEq Environment where
  beq := Environment.beq

end Environment

end MediaQuery
