import MediaQuery.Json.Token

/-!
# JSON values

The values of the interchange format, and the reader of a text that is one. The
reader goes over the tokens of the text; its depth is bounded by their number, so
it ends on every text.
-/

namespace MediaQuery

/--
A JSON value. Numbers are numerals and may exceed every number type; a string or a
key has no text if its escapes leave half of a surrogate pair alone.
-/
inductive Json where
  | null
  | bool (value : Bool)
  | number (numeral : Numeral)
  | string (text : Option String)
  | array (items : List Json)
  | object (members : List (Option String × Json))

namespace Json

mutual

/-- The value at the front of tokens, and the tokens after it. -/
def read? : Nat → List Token → Option (Json × List Token)
  | 0, _ => none
  | depth + 1, tokens =>
      match tokens with
      | .null :: rest => some (.null, rest)
      | .bool value :: rest => some (.bool value, rest)
      | .number numeral :: rest => some (.number numeral, rest)
      | .string text :: rest => some (.string text, rest)
      | .openArray :: .closeArray :: rest => some (.array [], rest)
      | .openArray :: rest => (readItems? depth rest).map fun (items, rest) => (.array items, rest)
      | .openObject :: .closeObject :: rest => some (.object [], rest)
      | .openObject :: rest =>
          (readMembers? depth rest).map fun (members, rest) => (.object members, rest)
      | _ => none

/-- The items at the front of tokens up to the end of their array, and the tokens after it. -/
def readItems? : Nat → List Token → Option (List Json × List Token)
  | 0, _ => none
  | depth + 1, tokens =>
      match read? depth tokens with
      | some (item, .closeArray :: rest) => some ([item], rest)
      | some (item, .comma :: rest) =>
          (readItems? depth rest).map fun (items, rest) => (item :: items, rest)
      | _ => none

/-- The members at the front of tokens up to the end of their object, and the tokens after it. -/
def readMembers? : Nat → List Token → Option (List (Option String × Json) × List Token)
  | 0, _ => none
  | depth + 1, tokens =>
      match tokens with
      | .string key :: .colon :: rest =>
          match read? depth rest with
          | some (value, .closeObject :: rest) => some ([(key, value)], rest)
          | some (value, .comma :: rest) =>
              (readMembers? depth rest).map fun (members, rest) => ((key, value) :: members, rest)
          | _ => none
      | _ => none

end

/-- The value that all of the tokens make up. -/
def ofTokens? (tokens : List Token) : Option Json :=
  match read? (2 * tokens.length + 1) tokens with
  | some (value, []) => some value
  | _ => none

/-- The value that a text is, if it is one. -/
def ofString? (text : String) : Option Json :=
  (Token.ofText? text.toList).bind ofTokens?

end Json

end MediaQuery
