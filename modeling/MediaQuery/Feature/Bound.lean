/-!
# Bounds

A feature test compares for equality, or with a least or a greatest value. The
bound is written in front of the name of the feature.
-/

namespace MediaQuery

/-- How the value of a test bounds the value of the device. -/
inductive Bound where
  | exact
  | min
  | max
  deriving DecidableEq, Repr

namespace Bound

/-- What is written in front of the name of a feature. -/
def marker : Bound → String
  | .exact => ""
  | .min => "min-"
  | .max => "max-"

/-- The bound and the name that a written name consists of; a bound needs a name after it. -/
def split (name : String) : Bound × String :=
  match name.toList with
  | 'm' :: 'i' :: 'n' :: '-' :: first :: rest => (.min, String.ofList (first :: rest))
  | 'm' :: 'a' :: 'x' :: '-' :: first :: rest => (.max, String.ofList (first :: rest))
  | _ => (.exact, name)

/-- The two parts of a written name make it up again. -/
theorem marker_append_split (name : String) : (split name).1.marker ++ (split name).2 = name := by
  apply String.toList_injective
  unfold split
  split
  · rename_i first rest written
    simp [marker, written]
  · rename_i first rest written
    simp [marker, written]
  · simp [marker]

/-- Whether an actual value is within the bound that an expected value sets. -/
def admits {Value : Type} [LE Value] [DecidableLE Value] [BEq Value]
    (bound : Bound) (expected actual : Value) : Bool :=
  match bound with
  | .exact => expected == actual
  | .min => decide (expected ≤ actual)
  | .max => decide (actual ≤ expected)

end Bound

end MediaQuery
