import MediaQuery.Query.Evaluation

/-!
# Comparing evaluations

What two evaluations have in common follows from what they have in common test by test, and
query by query.
-/

namespace MediaQuery

variable {environment other : Environment} {options others : MatchOptions}

namespace Query

variable {query : Query}

theorem evaluate_of_negated (negated : query.negated = true) :
    query.evaluate environment options = !(query.matchesType environment &&
      query.tests.all fun test => test.evaluate environment options) := by
  simp [evaluate, negated]

theorem evaluate_congr_of_tests
    (typed : query.matchesType environment = query.matchesType other)
    (tests : ∀ test ∈ query.tests,
      test.evaluate environment options = test.evaluate other others) :
    query.evaluate environment options = query.evaluate other others := by
  have all : query.tests.all (fun test => test.evaluate environment options) =
      query.tests.all fun test => test.evaluate other others := by
    rw [Bool.eq_iff_iff, List.all_eq_true, List.all_eq_true]
    apply forall₂_congr
    intro test member
    rw [tests test member]
  rw [evaluate, evaluate, typed, all]

/-- A query without a negation goes on holding as long as its tests do. -/
theorem evaluate_mono_of_tests (positive : query.negated = false)
    (typed : query.matchesType environment = query.matchesType other)
    (tests : ∀ test ∈ query.tests,
      test.evaluate environment options = true → test.evaluate other others = true)
    (holds : query.evaluate environment options = true) :
    query.evaluate other others = true := by
  rw [evaluate_of_positive positive, Bool.and_eq_true, List.all_eq_true] at holds ⊢
  exact ⟨typed ▸ holds.1, fun test member => tests test member (holds.2 test member)⟩

end Query

namespace QueryList

variable {list : QueryList}

theorem evaluate_congr_of_queries
    (each : ∀ query ∈ list, query.evaluate environment options = query.evaluate other others) :
    list.evaluate environment options = list.evaluate other others := by
  rw [evaluate, evaluate, Bool.eq_iff_iff, List.any_eq_true, List.any_eq_true]
  apply exists_congr
  intro query
  apply and_congr_right
  intro member
  rw [each query member]

/-- One query that holds is enough, so a list goes on holding as long as its queries do. -/
theorem evaluate_mono_of_queries
    (each : ∀ query ∈ list,
      query.evaluate environment options = true → query.evaluate other others = true)
    (holds : list.evaluate environment options = true) :
    list.evaluate other others = true := by
  rcases List.any_eq_true.mp holds with ⟨query, member, queryHolds⟩
  exact List.any_eq_true.mpr ⟨query, member, each query member queryHolds⟩

end QueryList

end MediaQuery
