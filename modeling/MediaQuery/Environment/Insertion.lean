import MediaQuery.Environment.Basic

/-!
# Building environments

An environment is built by insertions, which overwrite the value that a name already has. One kind
of insertion hands back the value that it overwrites, the other one only the environment; both can
go over any number of entries. An array of entries is inserted in its order.
-/

namespace MediaQuery

namespace Environment

/--
Entries with a value under a name, and the value that it takes the place of. A name that is there
keeps its place, and a new one comes last.
-/
def replaceIn (name : String) (value : FeatureValue) :
    List (String × FeatureValue) → Option FeatureValue × List (String × FeatureValue)
  | [] => (none, [(name, value)])
  | (key, old) :: rest =>
      if key == name then
        (some old, (key, value) :: rest)
      else
        let (replaced, entries) := replaceIn name value rest
        (replaced, (key, old) :: entries)

theorem mem_keys_replaceIn {name other : String} {value : FeatureValue}
    {entries : List (String × FeatureValue)}
    (member : other ∈ (replaceIn name value entries).2.map Prod.fst) :
    other = name ∨ other ∈ entries.map Prod.fst := by
  induction entries with
  | nil => simpa [replaceIn] using member
  | cons entry rest ih =>
      rcases entry with ⟨key, old⟩
      rw [replaceIn] at member
      split at member
      · exact Or.inr (by simpa using member)
      · rcases List.mem_cons.mp member with first | later
        · exact Or.inr (by simp [show other = key from first])
        · exact (ih later).imp_right (List.mem_cons_of_mem key)

theorem nodup_replaceIn (name : String) (value : FeatureValue)
    {entries : List (String × FeatureValue)} (distinct : (entries.map Prod.fst).Nodup) :
    ((replaceIn name value entries).2.map Prod.fst).Nodup := by
  induction entries with
  | nil => simp [replaceIn]
  | cons entry rest ih =>
      rcases entry with ⟨key, old⟩
      rcases List.nodup_cons.mp distinct with ⟨new, distinct⟩
      rw [replaceIn]
      split
      · exact List.nodup_cons.mpr ⟨new, distinct⟩
      · rename_i other
        refine List.nodup_cons.mpr ⟨fun member => ?_, ih distinct⟩
        rcases mem_keys_replaceIn member with same | twice
        · exact other (by simpa using same)
        · exact new twice

/-- An environment with a value under a name, and the value that it takes the place of. -/
def replace (environment : Environment) (name : String) (value : FeatureValue) :
    Option FeatureValue × Environment :=
  ((replaceIn name value environment.entries).1,
    { entries := (replaceIn name value environment.entries).2
      distinct := nodup_replaceIn name value environment.distinct })

/-- An environment that reports a value under a name as well, or instead of the one it has there. -/
def including (environment : Environment) (name : String) (value : FeatureValue) : Environment :=
  (environment.replace name value).2

/-- An environment after one replacement for each entry, and the values that were replaced. -/
def replaceAll (environment : Environment) :
    List (String × FeatureValue) → List (Option FeatureValue) × Environment
  | [] => ([], environment)
  | (name, value) :: rest =>
      let (replaced, after) := environment.replace name value
      let (later, last) := after.replaceAll rest
      (replaced :: later, last)

/-- An environment that reports one entry after the other as well. -/
def includingAll (environment : Environment) (entries : List (String × FeatureValue)) :
    Environment :=
  entries.foldl (fun environment entry => environment.including entry.1 entry.2) environment

/-- The environment of an array of entries. -/
def ofVector {count : Nat} (entries : Vector (String × FeatureValue) count) : Environment :=
  ofList entries.toList

end Environment

end MediaQuery
