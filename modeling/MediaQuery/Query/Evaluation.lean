import MediaQuery.Feature.Evaluation
import MediaQuery.Query.Reader

/-!
# Evaluating queries

A query holds if its media type fits and all its tests hold, and a negated one if
it would not hold otherwise. A list holds if one of its queries does.
-/

namespace MediaQuery

namespace Query

/-- Whether the media type of a query fits that of the device, if the device reports one. -/
def matchesType (query : Query) (environment : Environment) : Bool :=
  query.mediaType == "all" ||
    match environment.mediaType? with
    | none => true
    | some reported => reported.text? == some query.mediaType

/-- Whether a query holds in an environment. -/
def evaluate (query : Query) (environment : Environment) (options : MatchOptions) : Bool :=
  let holds := query.matchesType environment &&
    query.tests.all fun test => test.evaluate environment options
  if query.negated then !holds else holds

theorem evaluate_of_positive {query : Query} {environment : Environment} {options : MatchOptions}
    (positive : query.negated = false) :
    query.evaluate environment options = (query.matchesType environment &&
      query.tests.all fun test => test.evaluate environment options) := by
  simp [evaluate, positive]

end Query

namespace QueryList

/-- Whether one of the queries holds in an environment; of no queries none does. -/
def evaluate (list : QueryList) (environment : Environment) (options : MatchOptions) : Bool :=
  list.any fun query => query.evaluate environment options

end QueryList

/-- Whether one of the queries of a string holds in an environment. -/
def evaluateText (text : String) (environment : Environment) (options : MatchOptions) : Bool :=
  (QueryList.ofString text).evaluate environment options

end MediaQuery
