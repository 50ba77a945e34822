import MediaQuery.Proofs.Number.Packing

/-!
# Arithmetic on numbers

What the operations make of values that are not ordinary ones. A product is undefined only where
zero meets infinity, a quotient only where two zeros or two infinities meet. A decimal that is
written out is defined, and positive values stay positive.
-/

namespace MediaQuery

namespace Rounding

open Float.Model (UnpackedFloat Format)

theorem isNaN_eq (number : Float) : number.isNaN = (sign? number.toModel.unpack).isNone := by
  change number.toModel.unpack.isNaN = _
  cases number.toModel.unpack <;> rfl

theorem beq_zero_eq (number : Float) :
    (number == 0) = match number.toModel.unpack with
      | .zero _ => true
      | _ => false := by
  change number.toModel.unpack.beq (.zero .positive) = _
  rcases number.toModel.unpack with (_ | _) | _ | _ | ⟨_ | _, _, _, _⟩ <;> rfl

theorem isInf_eq (number : Float) : number.isInf = number.toModel.unpack.isInf := rfl

theorem sign?_mul (left right : Float) :
    sign? (left * right).toModel.unpack =
      sign? (UnpackedFloat.mul .binary64 left.toModel.unpack right.toModel.unpack) :=
  sign?_pack _

theorem sign?_div (left right : Float) :
    sign? (left / right).toModel.unpack =
      sign? (UnpackedFloat.div .binary64 left.toModel.unpack right.toModel.unpack) :=
  sign?_pack _

theorem sign?_add (left right : Float) :
    sign? (left + right).toModel.unpack =
      sign? (UnpackedFloat.add .binary64 left.toModel.unpack right.toModel.unpack) :=
  sign?_pack _

theorem sign?_neg (number : Float) :
    sign? (-number).toModel.unpack = sign? number.toModel.unpack.neg :=
  sign?_pack _

@[simp]
theorem sign?_roundWithAccuracy (format : Format) (sign : UnpackedFloat.Sign) (mantissa : Nat)
    (exponent : Int) (accuracy : UnpackedFloat.Accuracy) :
    sign? (UnpackedFloat.roundWithAccuracy format sign mantissa exponent accuracy) = some sign := by
  dsimp only [UnpackedFloat.roundWithAccuracy]
  split <;> rfl

@[simp]
theorem sign?_round (format : Format) (sign : UnpackedFloat.Sign) (mantissa : Nat)
    (exponent : Int) :
    sign? (UnpackedFloat.round format sign mantissa exponent) = some sign :=
  sign?_roundWithAccuracy _ _ _ _ _

/-- A product is undefined only where zero meets infinity. -/
theorem isNaN_mul_iff (left right : Float) :
    (left * right).isNaN = true ↔ left.isNaN = true ∨ right.isNaN = true ∨
      (left.isInf = true ∧ (right == 0) = true) ∨ ((left == 0) = true ∧ right.isInf = true) := by
  simp only [isNaN_eq, sign?_mul, beq_zero_eq, isInf_eq]
  cases left.toModel.unpack <;> cases right.toModel.unpack <;>
    simp [UnpackedFloat.mul, UnpackedFloat.isInf]

/-- A quotient is undefined only where both numbers are zero or both infinite. -/
theorem isNaN_div_iff (left right : Float) :
    (left / right).isNaN = true ↔ left.isNaN = true ∨ right.isNaN = true ∨
      ((left == 0) = true ∧ (right == 0) = true) ∨ (left.isInf = true ∧ right.isInf = true) := by
  simp only [isNaN_eq, sign?_div, beq_zero_eq, isInf_eq]
  cases left.toModel.unpack <;> cases right.toModel.unpack <;>
    simp [UnpackedFloat.div, UnpackedFloat.isInf]

theorem isNaN_neg (number : Float) : (-number).isNaN = number.isNaN := by
  rw [isNaN_eq, isNaN_eq, sign?_neg]
  cases number.toModel.unpack <;> rfl

/-- Whether a number is neither zero nor infinite nor undefined. -/
structure IsOrdinary (number : Float) : Prop where
  isFinite : number.isFinite = true
  nonzero : (number == 0) = false

theorem isFinite_iff (number : Float) :
    number.isFinite = true ↔ number.isNaN = false ∧ number.isInf = false := by
  change number.toModel.unpack.isFinite = true ↔
    number.toModel.unpack.isNaN = false ∧ number.toModel.unpack.isInf = false
  cases number.toModel.unpack <;>
    simp [UnpackedFloat.isFinite, UnpackedFloat.isNaN, UnpackedFloat.isInf]

/-- A factor that is an ordinary number makes nothing undefined. -/
theorem IsOrdinary.isNaN_mul {factor : Float} (ordinary : IsOrdinary factor) (number : Float) :
    (number * factor).isNaN = number.isNaN := by
  have ⟨defined, bounded⟩ := (isFinite_iff factor).mp ordinary.isFinite
  rw [Bool.eq_iff_iff, isNaN_mul_iff]
  simp only [defined, bounded, ordinary.nonzero, Bool.false_eq_true, and_false, or_false]

/-- A divisor that is an ordinary number makes nothing undefined. -/
theorem IsOrdinary.isNaN_div {divisor : Float} (ordinary : IsOrdinary divisor) (number : Float) :
    (number / divisor).isNaN = number.isNaN := by
  have ⟨defined, bounded⟩ := (isFinite_iff divisor).mp ordinary.isFinite
  rw [Bool.eq_iff_iff, isNaN_div_iff]
  simp only [defined, bounded, ordinary.nonzero, Bool.false_eq_true, and_false, or_false]

/-- The product of two finite numbers is defined. -/
theorem isNaN_mul_of_isFinite {left right : Float} (finiteLeft : left.isFinite = true)
    (finiteRight : right.isFinite = true) : (left * right).isNaN = false := by
  have ⟨definedLeft, boundedLeft⟩ := (isFinite_iff left).mp finiteLeft
  have ⟨definedRight, boundedRight⟩ := (isFinite_iff right).mp finiteRight
  rw [Bool.eq_false_iff, ne_eq, isNaN_mul_iff]
  simp only [definedLeft, boundedLeft, definedRight, boundedRight, Bool.false_eq_true, and_false,
    false_and, or_false, not_false_eq_true]

theorem signed_natAbs (exponent : Int) :
    (if decide (exponent < 0) = true then Int.negOfNat exponent.natAbs
      else Int.ofNat exponent.natAbs) = exponent := by
  split
  · rename_i negative
    have below := of_decide_eq_true negative
    rw [Int.negOfNat_eq, Int.ofNat_eq_natCast]
    omega
  · rename_i notNegative
    have above : ¬ exponent < 0 := fun below => notNegative (decide_eq_true below)
    rw [Int.ofNat_eq_natCast]
    omega

section Positive

/-- Whether a number is defined and has no minus sign. -/
def IsPositive (number : Float) : Prop :=
  sign? number.toModel.unpack = some .positive

theorem IsPositive.isNaN {number : Float} (positive : IsPositive number) :
    number.isNaN = false := by
  rw [isNaN_eq, positive]
  rfl

theorem sign?_normalize (format : Format) {mantissa : Int} (positive : 0 < mantissa)
    (exponent : Int) (zeroSign : UnpackedFloat.Sign) :
    sign? (UnpackedFloat.normalize format mantissa exponent zeroSign) = some .positive := by
  rw [UnpackedFloat.normalize, Int.compare_eq_gt.mpr positive]
  apply sign?_round

theorem sign?_add_of_positive {format : Format} {left right : UnpackedFloat}
    (positiveLeft : sign? left = some .positive) (positiveRight : sign? right = some .positive) :
    sign? (UnpackedFloat.add format left right) = some .positive := by
  cases left with
  | notANumber => cases positiveLeft
  | infinity sign =>
      cases positiveLeft
      cases right <;> cases positiveRight <;> rfl
  | zero sign =>
      cases positiveLeft
      cases right <;> cases positiveRight <;> rfl
  | finite sign mantissa exponent positive =>
      cases positiveLeft
      cases right with
      | finite sign otherMantissa otherExponent otherPositive =>
          cases positiveRight
          apply sign?_normalize
          have first : 0 < (UnpackedFloat.decreaseExponent mantissa exponent
              (min exponent otherExponent)).1 := Nat.shiftLeft_pos_iff.mpr positive
          exact Int.natCast_pos.mpr (Nat.add_pos_left first _)
      | _ => cases positiveRight <;> rfl

theorem IsPositive.add {left right : Float} (positiveLeft : IsPositive left)
    (positiveRight : IsPositive right) : IsPositive (left + right) :=
  (sign?_add left right).trans (sign?_add_of_positive positiveLeft positiveRight)

theorem IsPositive.mul {left right : Float} (positiveLeft : IsPositive left)
    (positiveRight : IsPositive right) (defined : (left * right).isNaN = false) :
    IsPositive (left * right) := by
  unfold IsPositive at *
  rw [isNaN_eq] at defined
  rw [sign?_mul] at defined ⊢
  cases first : left.toModel.unpack <;> cases second : right.toModel.unpack <;>
    simp_all [UnpackedFloat.mul] <;> rfl

theorem IsPositive.div {left right : Float} (positiveLeft : IsPositive left)
    (positiveRight : IsPositive right) (defined : (left / right).isNaN = false) :
    IsPositive (left / right) := by
  unfold IsPositive at *
  rw [isNaN_eq] at defined
  rw [sign?_div] at defined ⊢
  cases first : left.toModel.unpack <;> cases second : right.toModel.unpack <;>
    simp_all [UnpackedFloat.div] <;> rfl

theorem sign?_ofScientific (format : Format) (digits : Nat) (exponent : Int) :
    sign? (UnpackedFloat.ofScientific format digits exponent) = some .positive := by
  dsimp only [UnpackedFloat.ofScientific]
  split
  · rfl
  split
  · rfl
  split
  · rfl
  split
  · apply sign?_roundWithAccuracy
  · apply sign?_roundWithAccuracy

theorem isPositive_ofUInt64 (word : UInt64) : IsPositive word.toFloat := by
  refine (sign?_pack _).trans ?_
  dsimp only [UnpackedFloat.ofUInt64, UnpackedFloat.ofNat, UnpackedFloat.ofInt]
  by_cases zero : word.toNat = 0
  · rw [zero]
    rfl
  · exact sign?_normalize _ (by omega) _ _

instance decidableEqSign : DecidableEq UnpackedFloat.Sign
  | .positive, .positive => isTrue rfl
  | .negative, .negative => isTrue rfl
  | .positive, .negative => isFalse UnpackedFloat.Sign.noConfusion
  | .negative, .positive => isFalse UnpackedFloat.Sign.noConfusion

theorem smallPowers : ∀ power ∈ Float.exactlyRepresentablePowersOfTen.toList,
    sign? power.toModel.unpack = some .positive ∧ power.isFinite = true ∧
      (power == 0) = false := by
  decide

/-- A decimal that is written out is positive, of whatever size it is. -/
theorem isPositive_ofScientific (digits : Nat) (negative : Bool) (exponent : Nat) :
    IsPositive (Float.ofScientific digits negative exponent) := by
  unfold Float.ofScientific
  split
  · rename_i small
    have below : exponent < Float.exactlyRepresentablePowersOfTen.size :=
      Nat.lt_succ_of_le small.2
    have power := smallPowers _ (Array.getElem_mem_toList below)
    have digitsPositive := isPositive_ofUInt64 digits.toUInt64
    dsimp only
    split
    · apply digitsPositive.div power.1
      rw [IsOrdinary.isNaN_div ⟨power.2.1, power.2.2⟩]
      exact digitsPositive.isNaN
    · apply digitsPositive.mul power.1
      rw [IsOrdinary.isNaN_mul ⟨power.2.1, power.2.2⟩]
      exact digitsPositive.isNaN
  · exact (sign?_pack _).trans (sign?_ofScientific _ _ _)

end Positive

section Absolute

theorem sign?_abs (number : Float) :
    sign? number.abs.toModel.unpack = sign? number.toModel.unpack.abs :=
  sign?_pack _

/-- A number without its sign is positive, unless it is undefined. -/
theorem isPositive_abs_iff (number : Float) : IsPositive number.abs ↔ number.isNaN = false := by
  rw [IsPositive, sign?_abs, isNaN_eq]
  cases number.toModel.unpack <;> simp [UnpackedFloat.abs]

/-- A number is zero without its sign only if it is zero with it. -/
theorem beq_zero_abs (number : Float) : (number.abs == 0) = (number == 0) := by
  have packed : number.abs.toModel = Float.Model.pack number.toModel.unpack.abs := rfl
  rw [beq_zero_eq, beq_zero_eq, packed]
  cases value : number.toModel.unpack with
  | notANumber => rfl
  | infinity sign => cases sign <;> rfl
  | zero sign => cases sign <;> rfl
  | finite sign mantissa exponent positive =>
      have form := isBinary64_of_unpack value
      dsimp only [UnpackedFloat.abs]
      split
      · rename_i other zero
        exact absurd ((UnpackedFloat.unpack_eq_zero_iff_of_valid UnpackedFloat.valid_pack).mp zero)
          (pack_ne_packedZero .positive other positive form.short form.least)
      · rfl

theorem zero_lt_iff (number : Float) :
    0 < number ↔ IsPositive number ∧ (number == 0) = false := by
  have less : 0 < number ↔ (UnpackedFloat.zero .positive).lt number.toModel.unpack = true :=
    decide_eq_true_iff
  rw [less, beq_zero_eq, IsPositive]
  rcases number.toModel.unpack with (_ | _) | _ | _ | ⟨_ | _, mantissa, exponent, _⟩ <;>
    simp [UnpackedFloat.lt, UnpackedFloat.compare]

theorem beq_zero_iff (number : Float) : (number == 0) = true ↔ number = 0 ∨ number = -0 := by
  constructor
  · intro zero
    rcases number with ⟨model⟩
    rw [beq_zero_eq] at zero
    have packed := pack_unpack model
    cases value : model.unpack with
    | zero sign =>
        rw [value] at packed
        rw [← packed]
        cases sign with
        | positive => exact Or.inl rfl
        | negative => exact Or.inr rfl
    | _ =>
        rw [value] at zero
        cases zero
  · rintro (rfl | rfl) <;> rfl

/-- The numbers that have a size are all but the two zeros and those that are undefined. -/
theorem zero_lt_abs_iff (number : Float) :
    0 < number.abs ↔ number ≠ 0 ∧ number ≠ -0 ∧ number.isNaN = false := by
  rw [zero_lt_iff, isPositive_abs_iff, beq_zero_abs, Bool.eq_false_iff (b := (number == 0)), ne_eq,
    beq_zero_iff, not_or]
  exact ⟨fun ⟨defined, positive, negative⟩ => ⟨positive, negative, defined⟩,
    fun ⟨positive, negative, defined⟩ => ⟨defined, positive, negative⟩⟩

end Absolute

end Rounding

end MediaQuery
