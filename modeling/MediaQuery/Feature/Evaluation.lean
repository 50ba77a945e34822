import MediaQuery.Feature.Basic
import MediaQuery.Environment.Basic
import MediaQuery.Feature.Test
import MediaQuery.Options.Basic

/-!
# Evaluating feature tests

A test compares the value it is written with to the value that the device
reports, both read in the way of the feature. A test without a value asks whether
the reported one counts as present.
-/

namespace MediaQuery

namespace Feature

/-- Whether a number passes a test; a test without a value asks for a number other than zero. -/
def passesNumber (ofText : String → Except ReadError Float) (test : FeatureTest)
    (actual : Float) : Except ReadError Bool :=
  match test.value with
  | none => .ok (actual != 0)
  | some text => (ofText text).map fun expected => test.bound.admits expected actual

/-- Whether a reported value counts as present for a feature with integer values. -/
def countsPresent (feature : Feature) (actual : FeatureValue) : Except ReadError Bool :=
  if feature = .grid ∨ actual.text?.isNone then
    .ok actual.isTruthy
  else
    actual.toInteger.map (· != 0)

/-- Whether a reported value passes a test for a feature with integer values. -/
def passesInteger (feature : Feature) (test : FeatureTest) (actual : FeatureValue) :
    Except ReadError Bool :=
  match test.value with
  | none => feature.countsPresent actual
  | some text =>
      match actual.toInteger with
      | .ok count => (integerOfText text).map fun expected => test.bound.admits expected count
      | .error error => .error error

/-- Whether a reported value passes a test for a keyword; a bound means nothing there. -/
def passesKeyword (test : FeatureTest) (actual : FeatureValue) : Bool :=
  match test.value with
  | none => actual.isTruthy
  | some text => actual.text? == some text

/-- Whether the value reported for a feature passes a test; an error if a value cannot be read. -/
def passes (feature : Feature) (test : FeatureTest) (actual : FeatureValue) :
    Except ReadError Bool :=
  match feature.kind with
  | .length => actual.toPixels.bind (passesNumber pixelsOfText test)
  | .ratio => actual.toDecimal.bind (passesNumber decimalOfText test)
  | .resolution => actual.toDotsPerInch.bind (passesNumber dotsPerInchOfText test)
  | .integer => feature.passesInteger test actual
  | .keyword => .ok (passesKeyword test actual)

end Feature

namespace FeatureTest

/-- Whether a reported value passes; unknown features and unreadable values do not. -/
def accepts (test : FeatureTest) (actual : FeatureValue) : Bool :=
  match Feature.ofName? test.name with
  | none => false
  | some feature =>
      match feature.passes test actual with
      | .ok result => result
      | .error _ => false

/--
Whether a test holds in an environment. A malformed test never holds, and one of a
feature that is not reported holds as the options say.
-/
def evaluate (test : FeatureTest) (environment : Environment) (options : MatchOptions) : Bool :=
  if test.isMalformed then
    false
  else
    match environment.get? test.name with
    | none => options.absentFeature == .pass
    | some actual => test.accepts actual

end FeatureTest

end MediaQuery
