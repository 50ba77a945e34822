/-!
# Ratios

A ratio of two numbers, such as the width of a screen to its height. Ratios are
compared by their quotients.
-/

namespace MediaQuery

/-- Two numbers, the first over the second. -/
structure Ratio where
  numerator : Float
  denominator : Float

/-- The quotient of a ratio. -/
def Ratio.toDecimal (ratio : Ratio) : Float :=
  ratio.numerator / ratio.denominator

end MediaQuery
