import MediaQuery.Proofs.Number.Arithmetic

/-!
# Digits that are kept

Rounding raises an exponent at most by one place past the last digit that is kept, so that a finite
value stays finite if it is multiplied by a tenth. A mantissa whose extra digits are zero loses
nothing, and a quotient with one is the number itself.
-/

namespace MediaQuery

namespace Rounding

open Float.Model (UnpackedFloat Format totalExponent)

variable {format : Format} {mantissa : Nat} {exponent : Int}

theorem mantissa_shiftRight (value : UnpackedFloat.ExtendedMantissa) (steps : Nat) :
    (value >>> steps).mantissa = value.mantissa / Nat.pow 2 steps := by
  change (Nat.repeat UnpackedFloat.ExtendedMantissa.shiftRightOne steps value).mantissa = _
  induction steps with
  | zero => exact (Nat.div_one _).symm
  | succ steps ih =>
      rw [Nat.repeat]
      change (Nat.repeat _ steps value).mantissa / 2 = _
      rw [ih, Nat.div_div_eq_div_mul]
      rfl

theorem mantissa_ofMantissaAndAccuracy (mantissa : Nat) (accuracy : UnpackedFloat.Accuracy) :
    (UnpackedFloat.ExtendedMantissa.ofMantissaAndAccuracy mantissa accuracy).mantissa =
      mantissa := by
  rcases accuracy with _ | (_ | _ | _) <;> rfl

theorem roundedMantissa_le (value : UnpackedFloat.ExtendedMantissa) :
    value.roundedMantissa ≤ value.mantissa + 1 := by
  rcases value with ⟨mantissa, _ | _, _ | _⟩ <;>
    dsimp only [UnpackedFloat.ExtendedMantissa.roundedMantissa,
      UnpackedFloat.ExtendedMantissa.accuracy, UnpackedFloat.Accuracy.roundToNearestEven] <;>
    omega

/-- A mantissa that is shifted to its place has no more digits than the format keeps. -/
theorem mantissa_shiftToTargetExponent_lt (format : Format) (mantissa : Nat) (exponent : Int)
    (accuracy : UnpackedFloat.Accuracy) :
    (UnpackedFloat.shiftToTargetExponent format mantissa exponent accuracy).1.mantissa <
      Nat.pow 2 format.mantissaBits := by
  dsimp only [UnpackedFloat.shiftToTargetExponent, UnpackedFloat.shiftToExponent]
  rw [mantissa_shiftRight, mantissa_ofMantissaAndAccuracy]
  generalize steps : (format.targetExponent (totalExponent mantissa exponent) - exponent).toNat =
    shift
  have long : mantissa.log2 + 1 ≤ shift + format.mantissaBits := by
    unfold Format.targetExponent totalExponent at steps
    omega
  apply Nat.div_lt_of_lt_mul
  calc mantissa < 2 ^ (mantissa.log2 + 1) := Nat.lt_log2_self
    _ ≤ 2 ^ (shift + format.mantissaBits) := Nat.pow_le_pow_right (by decide) long
    _ = Nat.pow 2 shift * Nat.pow 2 format.mantissaBits := Nat.pow_add 2 shift _

theorem exponent_shiftToTargetExponent_le {limit : Int} (accuracy : UnpackedFloat.Accuracy)
    (low : exponent ≤ limit)
    (target : format.targetExponent (totalExponent mantissa exponent) ≤ limit) :
    (UnpackedFloat.shiftToTargetExponent format mantissa exponent accuracy).2 ≤ limit := by
  dsimp only [UnpackedFloat.shiftToTargetExponent, UnpackedFloat.shiftToExponent]
  omega

theorem log2_le_of_le {number bound : Nat} (below : number ≤ Nat.pow 2 bound) :
    number.log2 ≤ bound := by
  rcases Nat.eq_zero_or_pos number with zero | positive
  · rw [zero, Nat.log2_zero]
    exact Nat.zero_le bound
  · apply Nat.le_of_lt_succ
    apply (Nat.log2_lt (Nat.ne_of_gt positive)).mpr
    exact Nat.lt_of_le_of_lt below (Nat.pow_lt_pow_right (by decide) bound.lt_succ_self)

theorem minExponent_le_targetExponent (format : Format) (total : Int) :
    format.minExponent ≤ format.targetExponent total :=
  Int.le_max_right _ _

/-- Rounding raises an exponent at most to one more than that of the last digit kept. -/
theorem exponent_roundWithAccuracy_le {sign otherSign : UnpackedFloat.Sign}
    {otherMantissa : Nat} {otherExponent limit : Int} {accuracy : UnpackedFloat.Accuracy}
    {positive : 0 < otherMantissa} (low : exponent ≤ limit)
    (target : format.targetExponent (totalExponent mantissa exponent) ≤ limit)
    (rounded : UnpackedFloat.roundWithAccuracy format sign mantissa exponent accuracy =
      .finite otherSign otherMantissa otherExponent positive) : otherExponent ≤ limit + 1 := by
  dsimp only [UnpackedFloat.roundWithAccuracy] at rounded
  split at rounded
  · cases rounded
  rw [← (UnpackedFloat.finite.inj rounded).2.2]
  have short := mantissa_shiftToTargetExponent_lt format mantissa exponent accuracy
  have shifted := exponent_shiftToTargetExponent_le accuracy low target
  have least := minExponent_le_targetExponent format (totalExponent mantissa exponent)
  generalize UnpackedFloat.shiftToTargetExponent format mantissa exponent accuracy = first at *
  have digits : first.1.roundedMantissa.log2 ≤ format.mantissaBits :=
    log2_le_of_le (Nat.le_trans (roundedMantissa_le first.1) short)
  apply exponent_shiftToTargetExponent_le
  · omega
  · unfold Format.targetExponent totalExponent at *
    omega

theorem mantissa_le_roundedMantissa (value : UnpackedFloat.ExtendedMantissa) :
    value.mantissa ≤ value.roundedMantissa := by
  rcases value with ⟨mantissa, _ | _, _ | _⟩ <;>
    dsimp only [UnpackedFloat.ExtendedMantissa.roundedMantissa,
      UnpackedFloat.ExtendedMantissa.accuracy, UnpackedFloat.Accuracy.roundToNearestEven] <;>
    omega

theorem le_exponent_shiftToTargetExponent (format : Format) (mantissa : Nat) (exponent : Int)
    (accuracy : UnpackedFloat.Accuracy) :
    format.targetExponent (totalExponent mantissa exponent) ≤
        (UnpackedFloat.shiftToTargetExponent format mantissa exponent accuracy).2 ∧
      exponent ≤ (UnpackedFloat.shiftToTargetExponent format mantissa exponent accuracy).2 := by
  dsimp only [UnpackedFloat.shiftToTargetExponent, UnpackedFloat.shiftToExponent]
  omega

/-- The first digit of a mantissa stays if it counts as much as the last one that is kept. -/
theorem mantissa_shiftToTargetExponent_pos (positive : 0 < mantissa)
    (inside : format.minExponent ≤ mantissa.log2 + exponent) (accuracy : UnpackedFloat.Accuracy) :
    0 < (UnpackedFloat.shiftToTargetExponent format mantissa exponent accuracy).1.mantissa := by
  dsimp only [UnpackedFloat.shiftToTargetExponent, UnpackedFloat.shiftToExponent]
  rw [mantissa_shiftRight, mantissa_ofMantissaAndAccuracy]
  apply Nat.div_pos
  · apply (Nat.le_log2 (Nat.ne_of_gt positive)).mp
    have kept : 1 ≤ format.mantissaBits := Nat.le_add_right 1 _
    unfold Format.targetExponent totalExponent
    omega
  · exact Nat.pow_pos (by decide)

/--
What is rounded is not zero if its first digit counts as much as the last one that is kept. It has
no more digits than are kept, and its exponent is not below that of the last one.
-/
theorem exists_roundWithAccuracy_eq_finite (positive : 0 < mantissa)
    (inside : format.minExponent ≤ mantissa.log2 + exponent) (sign : UnpackedFloat.Sign)
    (accuracy : UnpackedFloat.Accuracy) :
    ∃ (rounded : Nat) (otherExponent : Int) (roundedPositive : 0 < rounded),
      UnpackedFloat.roundWithAccuracy format sign mantissa exponent accuracy =
          .finite sign rounded otherExponent roundedPositive ∧
        rounded < Nat.pow 2 format.mantissaBits ∧
        format.targetExponent (totalExponent mantissa exponent) ≤ otherExponent := by
  have first := mantissa_shiftToTargetExponent_pos positive inside accuracy
  have target := (le_exponent_shiftToTargetExponent format mantissa exponent accuracy).1
  have least := minExponent_le_targetExponent format (totalExponent mantissa exponent)
  dsimp only [UnpackedFloat.roundWithAccuracy]
  generalize UnpackedFloat.shiftToTargetExponent format mantissa exponent accuracy = shifted at *
  have rounded := Nat.lt_of_lt_of_le first (mantissa_le_roundedMantissa shifted.1)
  have insideAgain : format.minExponent ≤ shifted.1.roundedMantissa.log2 + shifted.2 := by omega
  have second := mantissa_shiftToTargetExponent_pos rounded insideAgain .exact
  have short := mantissa_shiftToTargetExponent_lt format shifted.1.roundedMantissa shifted.2 .exact
  have higher := (le_exponent_shiftToTargetExponent format shifted.1.roundedMantissa shifted.2
    .exact).2
  rw [dif_neg (Nat.ne_of_gt second)]
  exact ⟨_, _, _, rfl, short, Int.le_trans target higher⟩

theorem targetExponent_le {total limit : Int} (short : total ≤ limit + 53)
    (least : -1074 ≤ limit) : Format.binary64.targetExponent total ≤ limit := by
  have kept : (Format.binary64.mantissaBits : Int) = 53 := rfl
  have smallest : Format.binary64.minExponent = -1074 := rfl
  unfold Format.targetExponent
  omega

/-- What is rounded well below the greatest exponent is finite. -/
theorem isFinite_unpack_pack_roundWithAccuracy {sign : UnpackedFloat.Sign} {limit : Int}
    {accuracy : UnpackedFloat.Accuracy} (low : exponent ≤ limit)
    (target : Format.binary64.targetExponent (totalExponent mantissa exponent) ≤ limit)
    (fits : limit < greatestExponent) :
    (Float.Model.pack (UnpackedFloat.roundWithAccuracy .binary64 sign mantissa exponent
      accuracy)).unpack.isFinite = true := by
  generalize rounded : UnpackedFloat.roundWithAccuracy .binary64 sign mantissa exponent accuracy =
    value
  cases value with
  | zero sign => exact (unpack_packComponents zero_ne_allOnes _).2
  | finite sign mantissa exponent positive =>
      have atMost := exponent_roundWithAccuracy_le low target rounded
      have biased : (exponent + 1023 + 52).toNat + 1 < Nat.pow 2 11 := by
        unfold greatestExponent at fits
        have places : Nat.pow 2 11 = 2048 := rfl
        omega
      exact (unpack_pack_finite sign positive biased).2
  | infinity sign =>
      dsimp only [UnpackedFloat.roundWithAccuracy] at rounded
      split at rounded <;> cases rounded
  | notANumber =>
      have signed := sign?_roundWithAccuracy .binary64 sign mantissa exponent accuracy
      rw [rounded] at signed
      cases signed

theorem tenth : ∃ mantissa positive, mantissa < 2 * leadingBit ∧
    (0.1 : Float).toModel.unpack = .finite .positive mantissa (-56) positive :=
  ⟨_, _, by decide, rfl⟩

/-- A tenth of a finite number is finite. -/
theorem isFinite_mul_tenth {number : Float} (finite : number.isFinite = true) :
    (number * 0.1).isFinite = true := by
  have unpacked : number.toModel.unpack.isFinite = true := finite
  rcases tenth with ⟨tenths, tenthsPositive, tenthsShort, factor⟩
  change (Float.Model.pack (UnpackedFloat.mul .binary64 number.toModel.unpack
    (0.1 : Float).toModel.unpack)).unpack.isFinite = true
  rw [factor]
  cases value : number.toModel.unpack with
  | notANumber =>
      rw [value] at unpacked
      exact absurd unpacked Bool.false_ne_true
  | infinity sign =>
      rw [value] at unpacked
      exact absurd unpacked Bool.false_ne_true
  | zero sign => exact (unpack_packComponents zero_ne_allOnes _).2
  | finite sign mantissa exponent positive =>
      have short := (isBinary64_of_unpack value).short
      have atMost := exponent_le_of_unpack value
      have product : mantissa * tenths ≤ Nat.pow 2 106 := by
        have doubled : 2 * leadingBit * (2 * leadingBit) = Nat.pow 2 106 := rfl
        rw [← doubled]
        exact Nat.mul_le_mul (Nat.le_of_lt short) (Nat.le_of_lt tenthsShort)
      have digits := log2_le_of_le product
      have low : exponent + -56 ≤ greatestExponent - 1 := by omega
      -- A product has 107 digits at most, and all but 53 of them are dropped.
      have target : Format.binary64.targetExponent
          (totalExponent (mantissa * tenths) (exponent + -56)) ≤ greatestExponent - 1 := by
        apply targetExponent_le
        · unfold totalExponent
          omega
        · decide
      exact isFinite_unpack_pack_roundWithAccuracy low target (by omega)

/-- The exponent of a number is where the digits of its mantissa are kept. -/
theorem IsBinary64.targetExponent_eq (form : IsBinary64 mantissa exponent)
    (positive : 0 < mantissa) :
    Format.binary64.targetExponent (totalExponent mantissa exponent) = exponent := by
  have kept : (Format.binary64.mantissaBits : Int) = 53 := rfl
  have smallest : Format.binary64.minExponent = -1074 := rfl
  have least := form.least
  unfold Format.targetExponent totalExponent
  by_cases full : leadingBit ≤ mantissa
  · have digits := log2_of_full full form.short
    omega
  · have subnormal : exponent = -1074 := form.full.resolve_left full
    have digits : mantissa.log2 < 52 :=
      (Nat.log2_lt (Nat.ne_of_gt positive)).mpr (Nat.lt_of_not_le full)
    omega

theorem shiftRight_mul (mantissa steps : Nat) :
    (⟨mantissa * Nat.pow 2 steps, false, false⟩ : UnpackedFloat.ExtendedMantissa) >>> steps =
      ⟨mantissa, false, false⟩ := by
  change Nat.repeat UnpackedFloat.ExtendedMantissa.shiftRightOne steps _ = _
  induction steps generalizing mantissa with
  | zero =>
      rw [Nat.repeat, Nat.pow_eq, Nat.pow_zero, Nat.mul_one]
  | succ steps ih =>
      have doubled : mantissa * Nat.pow 2 (steps + 1) = mantissa * 2 * Nat.pow 2 steps := by
        rw [Nat.pow_eq, Nat.pow_eq, Nat.pow_succ', Nat.mul_assoc]
      rw [Nat.repeat, doubled, ih]
      simp [UnpackedFloat.ExtendedMantissa.shiftRightOne]

theorem log2_mul_pow (positive : 0 < mantissa) (steps : Nat) :
    (mantissa * Nat.pow 2 steps).log2 = mantissa.log2 + steps := by
  induction steps with
  | zero => rw [Nat.pow_eq, Nat.pow_zero, Nat.mul_one, Nat.add_zero]
  | succ steps ih =>
      have doubled : mantissa * Nat.pow 2 (steps + 1) = 2 * (mantissa * Nat.pow 2 steps) := by
        rw [Nat.pow_eq, Nat.pow_eq, Nat.pow_succ', Nat.mul_left_comm]
      have nonzero : mantissa * Nat.pow 2 steps ≠ 0 :=
        Nat.ne_of_gt (Nat.mul_pos positive (Nat.pow_pos (by decide)))
      rw [doubled, Nat.log2_two_mul nonzero, ih, Nat.add_assoc]

/-- Digits beyond those that are kept are shifted out without loss if all of them are zero. -/
theorem shiftToTargetExponent_exact (form : IsBinary64 mantissa exponent)
    (positive : 0 < mantissa) (steps : Nat) :
    UnpackedFloat.shiftToTargetExponent .binary64 (mantissa * Nat.pow 2 steps)
      (exponent - steps) .exact = (⟨mantissa, false, false⟩, exponent) := by
  have total : totalExponent (mantissa * Nat.pow 2 steps) (exponent - steps) =
      totalExponent mantissa exponent := by
    unfold totalExponent
    rw [log2_mul_pow positive]
    omega
  have shift : (exponent - (exponent - steps)).toNat = steps := by omega
  dsimp only [UnpackedFloat.shiftToTargetExponent, UnpackedFloat.shiftToExponent]
  rw [total, form.targetExponent_eq positive, shift]
  exact Prod.ext (shiftRight_mul mantissa steps) (by omega)

/-- A mantissa with more digits than it needs is rounded without loss. -/
theorem roundWithAccuracy_exact (form : IsBinary64 mantissa exponent) (sign : UnpackedFloat.Sign)
    (positive : 0 < mantissa) (steps : Nat) :
    UnpackedFloat.roundWithAccuracy .binary64 sign (mantissa * Nat.pow 2 steps)
      (exponent - steps) .exact = .finite sign mantissa exponent positive := by
  have again := shiftToTargetExponent_exact form positive 0
  rw [Nat.pow_eq, Nat.pow_zero, Nat.mul_one, Int.natCast_zero, Int.sub_zero] at again
  have kept : (⟨mantissa, false, false⟩ : UnpackedFloat.ExtendedMantissa).roundedMantissa =
      mantissa := rfl
  dsimp only [UnpackedFloat.roundWithAccuracy]
  rw [shiftToTargetExponent_exact form positive steps]
  dsimp only
  simp only [kept, again, Nat.ne_of_gt positive, dite_false]

theorem divCore_one (form : IsBinary64 mantissa exponent) (positive : 0 < mantissa) :
    ∃ steps : Nat, UnpackedFloat.divCore .binary64 mantissa exponent leadingBit (-52) =
      (mantissa * Nat.pow 2 steps, exponent - steps, .exact) := by
  have total : totalExponent mantissa exponent - totalExponent leadingBit (-52) =
      totalExponent mantissa exponent - 1 := rfl
  have lower : Format.binary64.targetExponent (totalExponent mantissa exponent - 1) ≤ exponent := by
    have same := form.targetExponent_eq positive
    unfold Format.targetExponent at same ⊢
    omega
  dsimp only [UnpackedFloat.divCore]
  rw [total]
  generalize Format.binary64.targetExponent (totalExponent mantissa exponent - 1) = target at *
  refine ⟨(exponent - target).toNat, ?_⟩
  have least : min (exponent - -52) target = target := by omega
  have steps : (exponent - -52 - target).toNat = 52 + (exponent - target).toNat := by omega
  have shifted : mantissa <<< (52 + (exponent - target).toNat) =
      leadingBit * (mantissa * Nat.pow 2 (exponent - target).toNat) := by
    rw [Nat.shiftLeft_eq, Nat.pow_add, Nat.mul_left_comm]
    rfl
  have back : exponent - (exponent - target).toNat = target := by omega
  rw [least, steps, shifted, back, Nat.mul_div_cancel_left _ (by decide), Nat.mul_mod_right]
  rfl

theorem div_one_of_binary64 (form : IsBinary64 mantissa exponent) (sign : UnpackedFloat.Sign)
    (positive : 0 < mantissa) :
    UnpackedFloat.div .binary64 (.finite sign mantissa exponent positive)
      (1 : Float).toModel.unpack = .finite sign mantissa exponent positive := by
  have unsigned : sign / .positive = sign := by cases sign <;> rfl
  have one : (1 : Float).toModel.unpack =
      .finite .positive leadingBit (-52) (by decide) := rfl
  rcases divCore_one form positive with ⟨steps, quotient⟩
  rw [one]
  dsimp only [UnpackedFloat.div]
  rw [quotient, unsigned]
  exact roundWithAccuracy_exact form sign positive steps

/-- A number over one is the number. -/
theorem div_one (number : Float) : number / 1 = number := by
  have quotient : UnpackedFloat.div .binary64 number.toModel.unpack (1 : Float).toModel.unpack =
      number.toModel.unpack := by
    cases value : number.toModel.unpack with
    | notANumber => rfl
    | infinity sign => cases sign <;> rfl
    | zero sign => cases sign <;> rfl
    | finite sign mantissa exponent positive =>
        exact div_one_of_binary64 (isBinary64_of_unpack value) sign positive
  change Float.ofModel (.pack (UnpackedFloat.div .binary64 number.toModel.unpack
    (1 : Float).toModel.unpack)) = number
  rw [quotient, pack_unpack]

end Rounding

end MediaQuery
