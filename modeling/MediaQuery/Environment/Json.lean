import MediaQuery.Environment.Basic
import MediaQuery.Json.Basic
import MediaQuery.Json.Number
import MediaQuery.LoadError

/-!
# Environments from JSON

An environment loads from an object whose members are truth values, numbers and
strings. Any other member, and any number beyond the finite ones, refuses the
whole text; of members under one key the last counts.
-/

namespace MediaQuery

/-- The feature value that a JSON value is. -/
def FeatureValue.ofJson? : Json → Option FeatureValue
  | .bool value => some (.bool value)
  | .number numeral => numeral.jsonValue?.map FeatureValue.number
  | .string spelled => spelled.map FeatureValue.text
  | _ => none

namespace Environment

/-- The entry that a member of an object is. -/
def entryOfMember? : Option String × Json → Option (String × FeatureValue)
  | (some name, value) => (FeatureValue.ofJson? value).map fun value => (name, value)
  | (none, _) => none

/-- The environment that a value holds. -/
def ofJson? : Json → Option Environment
  | .object members => (members.mapM entryOfMember?).map ofList
  | _ => none

/-- Loads an environment from a JSON text. -/
def load (text : String) : Except LoadError Environment :=
  match (Json.ofString? text).bind ofJson? with
  | some environment => .ok environment
  | none => .error .environment

end Environment

end MediaQuery
