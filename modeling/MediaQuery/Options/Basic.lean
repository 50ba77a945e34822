/-!
# Matching options

The one choice that matching leaves open: what becomes of a test whose feature
the device does not report.
-/

namespace MediaQuery

/-- What a test of a feature that is not reported contributes. -/
inductive AbsentFeature where
  | fail
  | pass
  deriving DecidableEq, Repr

/-- The options of matching. -/
structure MatchOptions where
  absentFeature : AbsentFeature := .fail
  deriving DecidableEq, Repr

namespace AbsentFeature

/-- The name of a choice. -/
def name : AbsentFeature → String
  | .fail => "fail"
  | .pass => "pass-through"

/-- The choice with a given name. -/
def ofName? : String → Option AbsentFeature
  | "fail" => some .fail
  | "pass-through" => some .pass
  | _ => none

end AbsentFeature

end MediaQuery
