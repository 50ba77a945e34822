import MediaQuery.Feature.Test

/-!
# Media queries

A media query names a media type and tests of features, and may be negated.
Queries separated by commas make a list, of which one suffices.
-/

namespace MediaQuery

/--
One media query of a list. The mark `only` is recorded and means nothing, and the
type `all` stands where the query names none.
-/
structure Query where
  negated : Bool := false
  markedOnly : Bool := false
  mediaType : String := "all"
  tests : List FeatureTest := []
  deriving DecidableEq, Repr

/-- Media queries of which one suffices. -/
abbrev QueryList :=
  List Query

namespace Query

/-- The word in front of a query, if it has one. -/
def qualifier (query : Query) : Option String :=
  if query.negated then some "not" else if query.markedOnly then some "only" else none

/-- Whether a query is written with its media type: `all` may be left out before a bare test. -/
def writesType (query : Query) : Bool :=
  query.mediaType != "all" || query.qualifier.isSome || query.tests.isEmpty

/-- What is written in front of the tests. -/
def renderHead (query : Query) : String :=
  " ".intercalate
    (query.qualifier.toList ++ if query.writesType then [query.mediaType] else [])

/-- The tests of a query as they are written. -/
def renderTests (query : Query) : String :=
  " and ".intercalate (query.tests.map FeatureTest.render)

/-- A query as it is written. -/
def render (query : Query) : String :=
  if query.renderHead = "" then query.renderTests
  else if query.renderTests = "" then query.renderHead
  else query.renderHead ++ " and " ++ query.renderTests

instance : ToString Query where
  toString := render

end Query

namespace QueryList

/-- The queries of a list as they are written. -/
def render (list : QueryList) : String :=
  ", ".intercalate (list.map Query.render)

end QueryList

end MediaQuery
