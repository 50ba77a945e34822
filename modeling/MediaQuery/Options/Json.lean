import MediaQuery.Json.Basic
import MediaQuery.LoadError
import MediaQuery.Options.Basic

/-!
# Matching options from JSON

Options load from an object, whose other members do not matter, or from an array
of at most one choice. A choice is its name, or an object of the name and null.
-/

namespace MediaQuery

/-- The choice that a value names. -/
def AbsentFeature.ofJson? : Json → Option AbsentFeature
  | .string (some name) => ofName? name
  | .object [(some name, .null)] => ofName? name
  | _ => none

namespace MatchOptions

/-- The options that the members of an object make; no choice may be made twice. -/
def ofMembers? (members : List (Option String × Json)) : Option MatchOptions :=
  if members.any fun (key, _) => key.isNone then
    none
  else
    match members.filter fun (key, _) => key == some "absent-feature" with
    | [] => some {}
    | [(_, choice)] => (AbsentFeature.ofJson? choice).map fun absentFeature => { absentFeature }
    | _ => none

/-- The options that a value holds. -/
def ofJson? : Json → Option MatchOptions
  | .object members => ofMembers? members
  | .array [] => some {}
  | .array [choice] => (AbsentFeature.ofJson? choice).map fun absentFeature => { absentFeature }
  | _ => none

/-- Loads options from a JSON text. -/
def load (text : String) : Except LoadError MatchOptions :=
  match (Json.ofString? text).bind ofJson? with
  | some options => .ok options
  | none => .error .options

end MatchOptions

end MediaQuery
