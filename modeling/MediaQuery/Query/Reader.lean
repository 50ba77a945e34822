import MediaQuery.Query.Basic
import MediaQuery.Query.Component

/-!
# Reading queries

Every text reads as a list of queries. A query may start with `only` or `not` and
with a media type; of all that follows, the blocks in round brackets are its
tests, and everything else is passed over.
-/

namespace MediaQuery

/-- The words that may start a query. -/
inductive Qualifier where
  | only
  | negation
  deriving DecidableEq, Repr

namespace Qualifier

/-- The qualifier that a name is, in any letter case. -/
def ofName? (name : List Char) : Option Qualifier :=
  match String.ofList (Text.lower name) with
  | "only" => some .only
  | "not" => some .negation
  | _ => none

/-- The qualifier in front of components, and the components after it. -/
def take : List Component → Option Qualifier × List Component
  | [] => (none, [])
  | component :: rest =>
      match component.name?.bind ofName? with
      | some qualifier => (some qualifier, rest)
      | none => (none, component :: rest)

end Qualifier

namespace Query

/-- The media type in front of components: any name but `and`, in small letters. -/
def leadingType? : List Component → Option String
  | [] => none
  | component :: _ =>
      (component.name?.map fun name => String.ofList (Text.lower name)).filter (· != "and")

/-- The query that components make up. -/
def ofComponents (components : List Component) : Query :=
  let (qualifier, rest) := Qualifier.take components
  { negated := qualifier == some .negation
    markedOnly := qualifier == some .only
    mediaType := (leadingType? rest).getD "all"
    tests := rest.filterMap fun component => component.content?.bind FeatureTest.ofBlock? }

/-- The query that a text without commas is; a comma has no meaning here. -/
def ofText (text : List Char) : Query :=
  ofComponents (Component.ofText text)

/-- The query that a string is. -/
def ofString (text : String) : Query :=
  ofText text.toList

end Query

namespace QueryList

/-- The queries of a string: a comma always ends one, also inside brackets and quotes. -/
def ofString (text : String) : QueryList :=
  (Text.splitAtCommas text.toList).map Query.ofText

end QueryList

end MediaQuery
