import MediaQuery.Feature.Bound
import MediaQuery.Lexeme.Scan

/-!
# Feature tests

A feature test is what one pair of round brackets in a media query holds: the
name of a feature, with a bound in front of it, and perhaps a value. Brackets
that hold anything else make a malformed test.
-/

namespace MediaQuery

/--
A test of a feature. The name is in small letters and without its bound; the value
is kept as it is written. A malformed test has what its brackets hold as its name.
-/
structure FeatureTest where
  bound : Bound := .exact
  name : String
  value : Option String := none
  isMalformed : Bool := false
  deriving DecidableEq, Repr

namespace FeatureTest

/-- The test of brackets that hold no feature test. -/
def malformed (block : String) : FeatureTest where
  name := String.ofList (Text.lower block.toList)
  isMalformed := true

/-- The test of a feature whose name is written with its bound. -/
def ofWritten (written : String) (value : Option String) : FeatureTest :=
  let (bound, name) := Bound.split written
  { bound, name, value }

/-- The name of the tested feature as it is written, its bound included. -/
def writtenName (test : FeatureTest) : String :=
  test.bound.marker ++ test.name

/-- A test as it is written in a query. -/
def render (test : FeatureTest) : String :=
  match test.value with
  | some value => "(" ++ test.writtenName ++ ": " ++ value ++ ")"
  | none => "(" ++ test.writtenName ++ ")"

instance : ToString FeatureTest where
  toString := render

/-- The value that the lexemes after a colon spell, the white space around it left out. -/
def valueOf (lexemes : List Lexeme) : Option String :=
  match Text.trim (Lexeme.textOf (Lexeme.skipBlank lexemes)) with
  | [] => none
  | text => some (String.ofList text)

/-- The test that the lexemes of a block are: a name, or a name, a colon and a value. -/
def ofLexemes? : List Lexeme → Option FeatureTest
  | ⟨.ident name, _⟩ :: rest =>
      let written := String.ofList (Text.lower name)
      match Lexeme.skipBlank rest with
      | [] => some (ofWritten written none)
      | ⟨.colon, _⟩ :: value => some (ofWritten written (valueOf value))
      | _ => none
  | _ => none

/-- The test of a block: malformed if the block holds none, and nothing if it is empty. -/
def ofBlock? (content : List Lexeme) : Option FeatureTest :=
  let body := Lexeme.skipBlank content
  match ofLexemes? body with
  | some test => some test
  | none =>
      match Text.trim (Lexeme.textOf body) with
      | [] => none
      | text => some (malformed (String.ofList text))

end FeatureTest

end MediaQuery
