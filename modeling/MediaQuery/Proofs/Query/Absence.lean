import MediaQuery.Proofs.Query.Evaluation

/-!
# Features that are not reported

The options decide what a test of a feature contributes that is not reported, and count for
nothing else. To let such tests pass can only make more tests hold, and so more queries, unless
they are negated.
-/

namespace MediaQuery

variable {environment : Environment}

namespace FeatureTest

variable {test : FeatureTest}

theorem evaluate_of_wellFormed (wellFormed : test.isMalformed = false) (options : MatchOptions) :
    test.evaluate environment options =
      match environment.get? test.name with
      | none => options.absentFeature == .pass
      | some actual => test.accepts actual := by
  rw [evaluate]
  exact if_neg (by simp [wellFormed])

/-- A test fails although absent features pass only if it is malformed or fails on a value. -/
theorem evaluate_pass_eq_false_iff :
    test.evaluate environment ⟨.pass⟩ = false ↔
      test.isMalformed = true ∨
        ∃ actual, environment.get? test.name = some actual ∧ test.accepts actual = false := by
  cases malformed : test.isMalformed with
  | true => simp [evaluate, malformed]
  | false =>
      rw [evaluate_of_wellFormed malformed]
      rcases environment.get? test.name with _ | actual <;> simp

theorem evaluate_pass_of_fail (holds : test.evaluate environment ⟨.fail⟩ = true) :
    test.evaluate environment ⟨.pass⟩ = true := by
  cases passes : test.evaluate environment ⟨.pass⟩ with
  | true => rfl
  | false =>
      rcases evaluate_pass_eq_false_iff.mp passes with malformed | ⟨actual, reported, rejects⟩
      · simp [evaluate, malformed] at holds
      · simp [evaluate, reported, rejects] at holds

/-- The options mean nothing to a test whose feature is reported. -/
theorem evaluate_pass_eq_fail
    (reported : test.isMalformed = false → (environment.get? test.name).isSome = true) :
    test.evaluate environment ⟨.pass⟩ = test.evaluate environment ⟨.fail⟩ := by
  cases malformed : test.isMalformed with
  | true => simp [evaluate, malformed]
  | false =>
      rcases Option.isSome_iff_exists.mp (reported malformed) with ⟨actual, found⟩
      rw [evaluate_of_wellFormed malformed, evaluate_of_wellFormed malformed, found]

end FeatureTest

namespace Query

variable {query : Query}

/-- What a query asks for apart from its sign holds at least where absent features fail. -/
theorem asks_pass_of_fail
    (asked : (query.matchesType environment &&
      query.tests.all fun test => test.evaluate environment ⟨.fail⟩) = true) :
    (query.matchesType environment &&
      query.tests.all fun test => test.evaluate environment ⟨.pass⟩) = true := by
  rw [Bool.and_eq_true, List.all_eq_true] at asked ⊢
  exact ⟨asked.1, fun test member => FeatureTest.evaluate_pass_of_fail (asked.2 test member)⟩

theorem evaluate_pass_of_fail (positive : query.negated = false)
    (holds : query.evaluate environment ⟨.fail⟩ = true) :
    query.evaluate environment ⟨.pass⟩ = true :=
  evaluate_mono_of_tests positive rfl (fun _ _ => FeatureTest.evaluate_pass_of_fail) holds

theorem evaluate_fail_of_pass (negated : query.negated = true)
    (holds : query.evaluate environment ⟨.pass⟩ = true) :
    query.evaluate environment ⟨.fail⟩ = true := by
  rw [evaluate_of_negated negated, Bool.not_eq_true'] at holds ⊢
  apply eq_false_of_ne_true
  intro asked
  rw [asks_pass_of_fail asked] at holds
  exact absurd holds (by decide)

theorem evaluate_pass_eq_fail
    (reported : ∀ test ∈ query.tests, test.isMalformed = false →
      (environment.get? test.name).isSome = true) :
    query.evaluate environment ⟨.pass⟩ = query.evaluate environment ⟨.fail⟩ :=
  evaluate_congr_of_tests rfl fun test member =>
    FeatureTest.evaluate_pass_eq_fail (reported test member)

/-- Where absent features pass, only a test that fails for itself makes a query fail. -/
theorem evaluate_pass_eq_false_iff (positive : query.negated = false)
    (typed : query.matchesType environment = true) :
    query.evaluate environment ⟨.pass⟩ = false ↔
      ∃ test ∈ query.tests, test.isMalformed = true ∨
        ∃ actual, environment.get? test.name = some actual ∧ test.accepts actual = false := by
  rw [evaluate_of_positive positive, typed, Bool.true_and, List.all_eq_false]
  apply exists_congr
  intro test
  apply and_congr_right
  intro _
  rw [Bool.not_eq_true, FeatureTest.evaluate_pass_eq_false_iff]

end Query

namespace QueryList

/--
The two ways to treat absent features. Queries without a negation hold at least where absent
features fail, negated ones at least where they pass, and if every well-formed test has a value
reported, whichever it is, there is no difference. Where absent features pass, a query without a
negation that fits the media type fails only through a test that is malformed or that a reported
value does not meet.
-/
theorem evaluate_absentFeature (list : QueryList) (environment : Environment) :
    ((∀ query ∈ list, query.negated = false) →
        list.evaluate environment ⟨.fail⟩ = true → list.evaluate environment ⟨.pass⟩ = true) ∧
      ((∀ query ∈ list, query.negated = true) →
        list.evaluate environment ⟨.pass⟩ = true → list.evaluate environment ⟨.fail⟩ = true) ∧
      ((∀ query ∈ list, ∀ test ∈ query.tests, test.isMalformed = false →
          (environment.get? test.name).isSome = true) →
        list.evaluate environment ⟨.pass⟩ = list.evaluate environment ⟨.fail⟩) ∧
      ∀ query ∈ list, query.negated = false → query.matchesType environment = true →
        (query.evaluate environment ⟨.pass⟩ = false ↔
          ∃ test ∈ query.tests, test.isMalformed = true ∨
            ∃ actual, environment.get? test.name = some actual ∧
              test.accepts actual = false) := by
  refine ⟨?_, ?_, ?_, ?_⟩
  · intro positive
    exact evaluate_mono_of_queries fun query member =>
      Query.evaluate_pass_of_fail (positive query member)
  · intro negated
    exact evaluate_mono_of_queries fun query member =>
      Query.evaluate_fail_of_pass (negated query member)
  · intro reported
    exact evaluate_congr_of_queries fun query member =>
      Query.evaluate_pass_eq_fail (reported query member)
  · intro query _ positive typed
    exact Query.evaluate_pass_eq_false_iff positive typed

/--
A screen that reports no `color`, and zero, `false` and an empty text for what it does report.
-/
theorem evaluate_absentFeature_falsy :
    let environment := Environment.ofList
      [("type", .text "screen"), ("width", .number 0), ("grid", .bool false), ("scan", .text "")]
    let plain := ofString "(color), screen and (max-width: 0)"
    let negated := ofString "not (color), not tv and (width)"
    let mixed := ofString "not (scan), (grid: 0) and (min-width: 1px)"
    ((∀ query ∈ plain, query.negated = false) ∧
        plain.evaluate environment ⟨.fail⟩ = true ∧ plain.evaluate environment ⟨.pass⟩ = true) ∧
      ((∀ query ∈ negated, query.negated = true) ∧
        negated.evaluate environment ⟨.pass⟩ = true ∧
        negated.evaluate environment ⟨.fail⟩ = true) ∧
      ((∀ query ∈ mixed, ∀ test ∈ query.tests, test.isMalformed = false →
          (environment.get? test.name).isSome = true) ∧
        mixed.evaluate environment ⟨.pass⟩ = mixed.evaluate environment ⟨.fail⟩) ∧
      ∃ query ∈ mixed, query.negated = false ∧ query.matchesType environment = true ∧
        ∃ test ∈ query.tests, test.isMalformed = true ∨
          ∃ actual, environment.get? test.name = some actual ∧ test.accepts actual = false := by
  intro environment plain negated mixed
  have plainPositive : ∀ query ∈ plain, query.negated = false := by decide
  have plainHolds : plain.evaluate environment ⟨.fail⟩ = true := by decide
  have allNegated : ∀ query ∈ negated, query.negated = true := by decide
  have negatedHolds : negated.evaluate environment ⟨.pass⟩ = true := by decide
  have allReported : ∀ query ∈ mixed, ∀ test ∈ query.tests, test.isMalformed = false →
      (environment.get? test.name).isSome = true := by decide
  have grid : ⟨false, false, "all", [⟨.exact, "grid", some "0", false⟩,
      ⟨.min, "width", some "1px", false⟩]⟩ ∈ mixed := by decide
  refine ⟨⟨plainPositive, plainHolds, ?_⟩, ⟨allNegated, negatedHolds, ?_⟩, ⟨allReported, ?_⟩,
    ⟨_, grid, rfl, rfl, ?_⟩⟩
  · exact (evaluate_absentFeature plain environment).1 plainPositive plainHolds
  · exact (evaluate_absentFeature negated environment).2.1 allNegated negatedHolds
  · exact (evaluate_absentFeature mixed environment).2.2.1 allReported
  · exact ((evaluate_absentFeature mixed environment).2.2.2 _ grid rfl rfl).mp (by decide)

end QueryList

end MediaQuery
