import MediaQuery.Number.Rounding

/-!
# The order of numbers

Numbers are compared by sign, exponent and mantissa. The order that results is transitive,
and it is kept when numbers lose their fraction and what exceeds the range of a counter: the
exponents of two numbers decide before their mantissas because the mantissas have their full
length, but for those with the smallest exponent.
-/

namespace MediaQuery

namespace Rounding

open Float.Model (UnpackedFloat)

/--
The place of a value in the order of numbers: its side of zero, its exponent and its mantissa,
the latter two mirrored below zero.
-/
def place? : UnpackedFloat → Option (Int × Int × Int)
  | .notANumber => none
  | .infinity .negative => some (-2, 0, 0)
  | .finite .negative mantissa exponent _ => some (-1, -exponent, -mantissa)
  | .zero _ => some (0, 0, 0)
  | .finite .positive mantissa exponent _ => some (1, exponent, mantissa)
  | .infinity .positive => some (2, 0, 0)

/-- Whether a place is not behind another one. -/
def Precedes (left right : Int × Int × Int) : Prop :=
  left.1 < right.1 ∨ left.1 = right.1 ∧
    (left.2.1 < right.2.1 ∨ left.2.1 = right.2.1 ∧ left.2.2 ≤ right.2.2)

theorem Precedes.trans {first second third : Int × Int × Int} (left : Precedes first second)
    (right : Precedes second third) : Precedes first third := by
  unfold Precedes at *
  omega

theorem isLE_compare_then_iff (leftExponent rightExponent : Int) (left right : Nat) :
    ((compare leftExponent rightExponent).then (compare left right)).isLE = true ↔
      leftExponent < rightExponent ∨ leftExponent = rightExponent ∧ left ≤ right := by
  rcases Int.lt_trichotomy leftExponent rightExponent with less | same | more
  · simp [Int.compare_eq_lt.mpr less, less]
  · simp [same, Nat.isLE_compare]
  · simp [Int.compare_eq_gt.mpr more]
    omega

theorem unpacked_le_iff (left right : UnpackedFloat) :
    left.le right = true ↔
      ∃ first ∈ place? left, ∃ second ∈ place? right, Precedes first second := by
  rcases left with (_ | _) | _ | _ | ⟨_ | _, leftMantissa, leftExponent, _⟩ <;>
    rcases right with (_ | _) | _ | _ | ⟨_ | _, rightMantissa, rightExponent, _⟩ <;>
    dsimp only [UnpackedFloat.le, UnpackedFloat.compare, place?]
  -- Only two finite values of one sign are told apart by more than their constructors.
  case finite.negative.finite.negative =>
    simp only [Precedes, Option.mem_def, Option.some.injEq, exists_eq_left', Option.any_some,
      Ordering.swap_then, Int.compare_swap, Nat.compare_swap, isLE_compare_then_iff,
      Int.lt_irrefl, false_or, true_and]
    omega
  case finite.positive.finite.positive =>
    simp only [Precedes, Option.mem_def, Option.some.injEq, exists_eq_left', Option.any_some,
      isLE_compare_then_iff, Int.lt_irrefl, false_or, true_and]
    omega
  all_goals simp [compare, Precedes]

theorem le_iff (low high : Float) :
    low ≤ high ↔ low.toModel.unpack.le high.toModel.unpack = true :=
  decide_eq_true_iff

/-- The order of numbers is transitive, though no number that is undefined has a place in it. -/
theorem le_trans {first second third : Float} (left : first ≤ second) (right : second ≤ third) :
    first ≤ third := by
  rw [le_iff, unpacked_le_iff] at left right ⊢
  rcases left with ⟨low, isLow, middle, isMiddle, below⟩
  rcases right with ⟨middle', isMiddle', high, isHigh, above⟩
  have same : middle = middle' := Option.mem_unique isMiddle isMiddle'
  subst same
  exact ⟨low, isLow, high, isHigh, below.trans above⟩

/-- The whole part of the number with a given mantissa and exponent. -/
def wholePart (mantissa : Nat) (exponent : Int) : Nat :=
  mantissa * Nat.pow 2 exponent.toNat / Nat.pow 2 (-exponent).toNat

theorem wholePart_mono {left right : Nat} (ordered : left ≤ right) (exponent : Int) :
    wholePart left exponent ≤ wholePart right exponent :=
  Nat.div_le_div_right (Nat.mul_le_mul_right _ ordered)

/-- A doubled mantissa counts as much as an exponent that is one higher. -/
theorem wholePart_double (mantissa : Nat) (exponent : Int) :
    wholePart (2 * mantissa) exponent = wholePart mantissa (exponent + 1) := by
  unfold wholePart
  by_cases fraction : exponent < 0
  · have digits : (-exponent).toNat = (-(exponent + 1)).toNat + 1 := by omega
    have whole : exponent.toNat = 0 ∧ (exponent + 1).toNat = 0 := by omega
    rw [whole.1, whole.2, digits, Nat.pow_eq, Nat.pow_eq, Nat.pow_eq, Nat.pow_succ',
      ← Nat.div_div_eq_div_mul, Nat.pow_zero, Nat.mul_one, Nat.mul_one,
      Nat.mul_div_cancel_left _ (by decide)]
  · have digits : (exponent + 1).toNat = exponent.toNat + 1 := by omega
    have none : (-exponent).toNat = 0 ∧ (-(exponent + 1)).toNat = 0 := by omega
    rw [none.1, none.2, digits, Nat.pow_eq, Nat.pow_eq, Nat.pow_eq, Nat.pow_succ',
      Nat.mul_comm 2 mantissa, Nat.mul_assoc]

theorem wholePart_mono_exponent (mantissa : Nat) (exponent : Int) (steps : Nat) :
    wholePart mantissa exponent ≤ wholePart mantissa (exponent + steps) := by
  induction steps with
  | zero => simp
  | succ steps ih =>
      have doubled := wholePart_mono (Nat.le_mul_of_pos_left mantissa (Nat.zero_lt_two))
        (exponent + steps)
      rw [wholePart_double] at doubled
      have next : exponent + (steps + 1 : Nat) = exponent + steps + 1 := by omega
      rw [next]
      exact Nat.le_trans ih doubled

/-- What the first of the 53 bits of a mantissa counts. -/
def leadingBit : Nat :=
  Nat.pow 2 52

/-- The mantissas and exponents of binary64 values. -/
structure IsBinary64 (mantissa : Nat) (exponent : Int) : Prop where
  short : mantissa < 2 * leadingBit
  least : -1074 ≤ exponent
  full : leadingBit ≤ mantissa ∨ exponent = -1074

theorem isBinary64_of_unpack {bits : BitVec Float.Model.Format.binary64.numBits}
    {sign : UnpackedFloat.Sign} {mantissa : Nat} {exponent : Int} {positive : 0 < mantissa}
    (unpacked : UnpackedFloat.unpack .binary64 bits = .finite sign mantissa exponent positive) :
    IsBinary64 mantissa exponent := by
  have short : (UnpackedFloat.unpackMantissa bits).toNat < leadingBit :=
    (UnpackedFloat.unpackMantissa bits).isLt
  have bias : (Float.Model.Format.binary64.exponentBias : Int) = 1023 := rfl
  dsimp only [UnpackedFloat.unpack] at unpacked
  by_cases special : UnpackedFloat.unpackExponent bits = -1#_
  · rw [if_pos special] at unpacked
    by_cases infinite : UnpackedFloat.unpackMantissa bits = 0#_
    · rw [if_pos infinite] at unpacked
      cases unpacked
    · rw [if_neg infinite] at unpacked
      cases unpacked
  rw [if_neg special] at unpacked
  by_cases subnormal : UnpackedFloat.unpackExponent bits = 0#_
  · rw [if_pos subnormal] at unpacked
    by_cases zero : UnpackedFloat.unpackMantissa bits = 0#_
    · rw [dif_pos zero] at unpacked
      cases unpacked
    · rw [dif_neg zero] at unpacked
      cases unpacked
      have smallest : (UnpackedFloat.unpackExponent bits).toNat = 0 := by rw [subnormal]; rfl
      rw [smallest, bias]
      exact ⟨by omega, by omega, Or.inr (by omega)⟩
  · rw [if_neg subnormal] at unpacked
    cases unpacked
    have higher : (UnpackedFloat.unpackExponent bits).toNat ≠ 0 := fun zero =>
      subnormal (BitVec.eq_of_toNat_eq zero)
    have leading : (1#1 ++ UnpackedFloat.unpackMantissa bits).toNat =
        leadingBit + (UnpackedFloat.unpackMantissa bits).toNat := by
      rw [BitVec.toNat_append, ← Nat.shiftLeft_add_eq_or_of_lt short]
      rfl
    rw [leading, bias]
    exact ⟨by omega, by omega, Or.inl (by omega)⟩

/-- Of two binary64 values the one with the higher exponent is not the smaller one. -/
theorem wholePart_le {leftMantissa rightMantissa : Nat} {leftExponent rightExponent : Int}
    (left : IsBinary64 leftMantissa leftExponent) (right : IsBinary64 rightMantissa rightExponent)
    (ordered : leftExponent < rightExponent ∨
      leftExponent = rightExponent ∧ leftMantissa ≤ rightMantissa) :
    wholePart leftMantissa leftExponent ≤ wholePart rightMantissa rightExponent := by
  rcases ordered with lower | ⟨same, ordered⟩
  · have atLeast : leadingBit ≤ rightMantissa := by
      rcases right.full with full | smallest
      · exact full
      · have least := left.least
        omega
    have below : leftMantissa ≤ 2 * leadingBit := Nat.le_of_lt left.short
    have steps :
        rightExponent = leftExponent + 1 + ((rightExponent - leftExponent - 1).toNat : Int) := by
      omega
    calc wholePart leftMantissa leftExponent
        ≤ wholePart (2 * leadingBit) leftExponent := wholePart_mono below leftExponent
      _ = wholePart leadingBit (leftExponent + 1) := wholePart_double _ _
      _ ≤ wholePart rightMantissa (leftExponent + 1) := wholePart_mono atLeast _
      _ ≤ wholePart rightMantissa rightExponent := by
          rw [steps]
          exact wholePart_mono_exponent _ _ _
  · rw [same]
    exact wholePart_mono ordered _

theorem apply_wholePart_le {leftSign rightSign : UnpackedFloat.Sign}
    {leftMantissa rightMantissa : Nat} {leftExponent rightExponent : Int}
    {leftPositive : 0 < leftMantissa} {rightPositive : 0 < rightMantissa}
    (left : IsBinary64 leftMantissa leftExponent) (right : IsBinary64 rightMantissa rightExponent)
    (ordered : UnpackedFloat.le (.finite leftSign leftMantissa leftExponent leftPositive)
      (.finite rightSign rightMantissa rightExponent rightPositive) = true) :
    leftSign.apply (wholePart leftMantissa leftExponent) ≤
      rightSign.apply (wholePart rightMantissa rightExponent) := by
  rw [unpacked_le_iff] at ordered
  rcases ordered with ⟨first, isFirst, second, isSecond, precedes⟩
  cases leftSign with
  | negative =>
      cases isFirst
      cases rightSign with
      | negative =>
          cases isSecond
          simp only [Precedes, Int.lt_irrefl, false_or, true_and] at precedes
          exact Int.neg_le_neg (Int.ofNat_le.mpr (wholePart_le right left (by omega)))
      | positive =>
          exact Int.le_trans (Int.neg_nonpos_of_nonneg (Int.natCast_nonneg _))
            (Int.natCast_nonneg _)
  | positive =>
      cases isFirst
      cases rightSign with
      | negative =>
          cases isSecond
          simp [Precedes] at precedes
      | positive =>
          cases isSecond
          simp only [Precedes, Int.lt_irrefl, false_or, true_and] at precedes
          exact Int.ofNat_le.mpr (wholePart_le left right (by omega))

theorem exists_truncate? {number : Float} (finite : number.isFinite = true) :
    ∃ whole, truncate? number = some whole := by
  have unpacked : number.toModel.unpack.isFinite = true := finite
  cases value : number.toModel.unpack with
  | zero sign => exact ⟨_, by rw [truncate?, value]⟩
  | finite sign mantissa exponent positive => exact ⟨_, by rw [truncate?, value]⟩
  | infinity sign =>
      rw [value] at unpacked
      exact absurd unpacked Bool.false_ne_true
  | notANumber =>
      rw [value] at unpacked
      exact absurd unpacked Bool.false_ne_true

theorem truncate?_eq_some {number : Float} {whole : Int}
    (truncated : truncate? number = some whole) :
    (∃ sign, number.toModel.unpack = .zero sign ∧ whole = 0) ∨
      ∃ sign mantissa exponent positive,
        number.toModel.unpack = .finite sign mantissa exponent positive ∧
          IsBinary64 mantissa exponent ∧ whole = sign.apply (wholePart mantissa exponent) := by
  rw [truncate?] at truncated
  cases value : number.toModel.unpack with
  | infinity sign =>
      rw [value] at truncated
      cases truncated
  | notANumber =>
      rw [value] at truncated
      cases truncated
  | zero sign =>
      rw [value] at truncated
      exact Or.inl ⟨sign, rfl, (Option.some.inj truncated).symm⟩
  | finite sign mantissa exponent positive =>
      rw [value] at truncated
      exact Or.inr ⟨sign, mantissa, exponent, positive, rfl, isBinary64_of_unpack value,
        (Option.some.inj truncated).symm⟩

/-- Numbers keep their order when they lose their fraction. -/
theorem truncate?_mono {low high : Float} {least greatest : Int} (ordered : low ≤ high)
    (truncatedLow : truncate? low = some least) (truncatedHigh : truncate? high = some greatest) :
    least ≤ greatest := by
  have unpacked := (le_iff low high).mp ordered
  rcases truncate?_eq_some truncatedLow with ⟨_, low, rfl⟩ | ⟨lowSign, _, _, _, low, lowForm, rfl⟩
  · rcases truncate?_eq_some truncatedHigh with
      ⟨_, _, rfl⟩ | ⟨highSign, _, _, _, high, highForm, rfl⟩
    · exact Int.le_refl 0
    · rw [low, high] at unpacked
      cases highSign with
      | negative => exact absurd unpacked Bool.false_ne_true
      | positive => exact Int.natCast_nonneg _
  · rcases truncate?_eq_some truncatedHigh with
      ⟨_, high, rfl⟩ | ⟨highSign, _, _, _, high, highForm, rfl⟩
    · rw [low, high] at unpacked
      cases lowSign with
      | negative => exact Int.neg_nonpos_of_nonneg (Int.natCast_nonneg _)
      | positive => exact absurd unpacked Bool.false_ne_true
    · rw [low, high] at unpacked
      exact apply_wholePart_le lowForm highForm unpacked

theorem saturate_mono {left right : Int} (width : Nat) (ordered : left ≤ right) :
    saturate width left ≤ saturate width right := by
  have positive : 0 < Nat.pow 2 (width - 1) := Nat.pow_pos (by decide)
  simp only [saturate]
  split
  · split
    · omega
    · split <;> omega
  · split
    · split
      · omega
      · split <;> omega
    · split
      · omega
      · split <;> omega

theorem Precedes.antisymm {first second : Int × Int × Int} (left : Precedes first second)
    (right : Precedes second first) : first = second := by
  rcases first with ⟨side, exponent, mantissa⟩
  rcases second with ⟨otherSide, otherExponent, otherMantissa⟩
  simp only [Precedes] at left right
  simp only [Prod.mk.injEq]
  omega

theorem Precedes.total (first second : Int × Int × Int) :
    Precedes first second ∨ Precedes second first := by
  unfold Precedes
  omega

theorem compare_then_eq_iff (leftExponent rightExponent : Int) (left right : Nat) :
    (compare leftExponent rightExponent).then (compare left right) = .eq ↔
      leftExponent = rightExponent ∧ left = right := by
  rw [Ordering.then_eq_eq, Int.compare_eq_eq, Nat.compare_eq_eq]

/-- Two values are equal if they have the same place. -/
theorem unpacked_beq_iff (left right : UnpackedFloat) :
    left.beq right = true ↔ ∃ place ∈ place? left, place ∈ place? right := by
  rcases left with (_ | _) | _ | _ | ⟨_ | _, leftMantissa, leftExponent, _⟩ <;>
    rcases right with (_ | _) | _ | _ | ⟨_ | _, rightMantissa, rightExponent, _⟩ <;>
    dsimp only [UnpackedFloat.beq, UnpackedFloat.compare, place?]
  case finite.negative.finite.negative =>
    simp only [beq_iff_eq, Option.some.injEq, Ordering.swap_eq_eq, compare_then_eq_iff,
      Option.mem_def, exists_eq_left', Prod.mk.injEq, true_and]
    omega
  case finite.positive.finite.positive =>
    simp only [beq_iff_eq, Option.some.injEq, compare_then_eq_iff, Option.mem_def,
      exists_eq_left', Prod.mk.injEq, true_and]
    omega
  all_goals simp [compare]

/-- Two numbers are equal exactly if neither is above the other. -/
theorem beq_iff (left right : Float) :
    (left == right) = true ↔ left ≤ right ∧ right ≤ left := by
  have unpacked : (left == right) = left.toModel.unpack.beq right.toModel.unpack := rfl
  rw [unpacked, unpacked_beq_iff, le_iff, le_iff, unpacked_le_iff, unpacked_le_iff]
  constructor
  · rintro ⟨place, isLeft, isRight⟩
    rcases Precedes.total place place with precedes | precedes <;>
      exact ⟨⟨place, isLeft, place, isRight, precedes⟩, ⟨place, isRight, place, isLeft, precedes⟩⟩
  · rintro ⟨⟨low, isLow, high, isHigh, below⟩, ⟨high', isHigh', low', isLow', above⟩⟩
    have sameLow : low' = low := Option.mem_unique isLow' isLow
    have sameHigh : high' = high := Option.mem_unique isHigh' isHigh
    subst sameLow sameHigh
    have same : low' = high' := below.antisymm above
    subst same
    exact ⟨low', isLow, isHigh⟩

/-- It does not matter which of two numbers is compared to the other. -/
theorem beq_comm (left right : Float) : (left == right) = (right == left) := by
  rw [Bool.eq_iff_iff, beq_iff, beq_iff]
  exact and_comm

theorem isNaN_eq_false_iff (number : Float) :
    number.isNaN = false ↔ ∃ place, place ∈ place? number.toModel.unpack := by
  change number.toModel.unpack.isNaN = false ↔ _
  rcases number.toModel.unpack with (_ | _) | _ | _ | ⟨_ | _, mantissa, exponent, _⟩
  case notANumber => exact iff_of_false Bool.noConfusion fun ⟨_, isPlace⟩ => nomatch isPlace
  all_goals exact iff_of_true rfl ⟨_, rfl⟩

/-- Of two numbers that are defined one is not above the other. -/
theorem le_or_le {left right : Float} (definedLeft : left.isNaN = false)
    (definedRight : right.isNaN = false) : left ≤ right ∨ right ≤ left := by
  rcases (isNaN_eq_false_iff left).mp definedLeft with ⟨first, isFirst⟩
  rcases (isNaN_eq_false_iff right).mp definedRight with ⟨second, isSecond⟩
  rw [le_iff, le_iff, unpacked_le_iff, unpacked_le_iff]
  rcases Precedes.total first second with below | above
  · exact Or.inl ⟨first, isFirst, second, isSecond, below⟩
  · exact Or.inr ⟨second, isSecond, first, isFirst, above⟩

/-- A number is not above itself, if it is defined. -/
theorem le_self_iff (number : Float) : number ≤ number ↔ number.isNaN = false := by
  constructor
  · intro ordered
    rw [le_iff, unpacked_le_iff] at ordered
    rcases ordered with ⟨place, isPlace, _⟩
    exact (isNaN_eq_false_iff number).mpr ⟨place, isPlace⟩
  · intro defined
    exact (le_or_le defined defined).elim id id

end Rounding

end MediaQuery
