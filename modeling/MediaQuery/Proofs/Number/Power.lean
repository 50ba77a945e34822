import MediaQuery.Proofs.Number.Precision

/-!
# Powers of ten

A power of ten that scales a sum of digits is an ordinary number if its exponent is neither above
308 nor below -323. The powers above are infinite, and those below are zero.
-/

namespace MediaQuery

namespace Rounding

open Float.Model (UnpackedFloat Format totalExponent)

variable {mantissa : Nat} {exponent : Int}

/-- What is rounded between the least and the greatest exponent is an ordinary number. -/
theorem isOrdinary_pack_roundWithAccuracy {limit : Int} (positive : 0 < mantissa)
    (inside : -1074 ≤ mantissa.log2 + exponent) (low : exponent ≤ limit)
    (target : Format.binary64.targetExponent (totalExponent mantissa exponent) ≤ limit)
    (fits : limit < greatestExponent) (sign : UnpackedFloat.Sign)
    (accuracy : UnpackedFloat.Accuracy) :
    IsOrdinary (.ofModel (.pack
      (UnpackedFloat.roundWithAccuracy .binary64 sign mantissa exponent accuracy))) := by
  have inside : Format.binary64.minExponent ≤ mantissa.log2 + exponent := inside
  rcases exists_roundWithAccuracy_eq_finite positive inside sign accuracy with
    ⟨rounded, other, roundedPositive, value, short, higher⟩
  have least := minExponent_le_targetExponent .binary64 (totalExponent mantissa exponent)
  constructor
  · exact isFinite_unpack_pack_roundWithAccuracy low target fits
  · rw [beq_zero_eq, value]
    split
    · rename_i other zero
      exact absurd ((UnpackedFloat.unpack_eq_zero_iff_of_valid UnpackedFloat.valid_pack).mp zero)
        (pack_ne_packedZero sign other roundedPositive short (Int.le_trans least higher))
    · rfl

/-- A power of ten beyond those in the table is the nearest value of a decimal. -/
theorem toModel_powerOfTen (large : 22 < exponent.natAbs) :
    (powerOfTen exponent).toModel =
      .pack (UnpackedFloat.ofScientific .binary64 1 exponent) := by
  have noTable : ¬ (1 < 2 ^ 53 ∧ exponent.natAbs ≤ 22) := by omega
  unfold powerOfTen Float.ofScientific
  rw [dif_neg noTable]
  dsimp only
  rw [signed_natAbs]
  rfl

theorem pow_ten_pos (digits : Nat) : 0 < Nat.pow 10 digits :=
  Nat.pow_pos (by decide)

theorem le_log2_pow_ten {digits : Nat} (low bits : Nat) (ordered : low ≤ digits)
    (long : Nat.pow 2 bits ≤ Nat.pow 10 low) : bits ≤ (Nat.pow 10 digits).log2 := by
  apply (Nat.le_log2 (Nat.ne_of_gt (pow_ten_pos digits))).mpr
  exact Nat.le_trans long (Nat.pow_le_pow_right (by decide) ordered)

theorem log2_pow_ten_le {digits : Nat} (high bits : Nat) (ordered : digits ≤ high)
    (short : Nat.pow 10 high ≤ Nat.pow 2 bits) : (Nat.pow 10 digits).log2 ≤ bits :=
  log2_le_of_le (Nat.le_trans (Nat.pow_le_pow_right (by decide) ordered) short)

section Upward

variable {digits : Nat}

theorem pow_ten_mul_pos (digits : Nat) : 0 < Nat.pow 10 digits * Nat.pow 2 53 :=
  Nat.mul_pos (pow_ten_pos digits) (by decide)

theorem log2_pow_ten_mul (digits : Nat) :
    (Nat.pow 10 digits * Nat.pow 2 53).log2 = (Nat.pow 10 digits).log2 + 53 :=
  log2_mul_pow (pow_ten_pos digits) 53

/-- A power of ten above one is rounded from a product. -/
theorem ofScientific_of_nonneg (bounded : digits ≤ 2048) :
    UnpackedFloat.ofScientific .binary64 1 digits =
      UnpackedFloat.roundWithAccuracy .binary64 .positive (Nat.pow 10 digits * Nat.pow 2 53) (-53)
        .exact := by
  have limit : (2 : Int) ^ Format.binary64.exponentBits = 2048 := rfl
  have product : 1 <<< Format.binary64.mantissaBits * 10 ^ (digits : Int).toNat =
      Nat.pow 10 digits * Nat.pow 2 53 := Nat.mul_comm _ _
  unfold UnpackedFloat.ofScientific
  rw [dif_neg (by decide), if_neg (by omega), if_neg (by omega), if_pos (by omega)]
  dsimp only [UnpackedFloat.mul]
  rw [product]
  rfl

-- Rounding may carry past the first digit. Below the greatest power there is room for that; the
-- greatest one itself is computed with the small ones.
theorem isOrdinary_of_upward (large : 22 < digits) (fits : digits ≤ 307) :
    IsOrdinary (powerOfTen digits) := by
  have short := log2_pow_ten_le 307 1020 fits (by decide +kernel)
  have product := log2_pow_ten_mul digits
  have value : powerOfTen digits = .ofModel (.pack (UnpackedFloat.roundWithAccuracy .binary64
      .positive (Nat.pow 10 digits * Nat.pow 2 53) (-53) .exact)) := by
    rw [← ofScientific_of_nonneg (by omega)]
    exact congrArg Float.ofModel (toModel_powerOfTen (by omega))
  have target : Format.binary64.targetExponent
      (totalExponent (Nat.pow 10 digits * Nat.pow 2 53) (-53)) ≤ 968 := by
    apply targetExponent_le
    · unfold totalExponent
      omega
    · decide
  rw [value]
  exact isOrdinary_pack_roundWithAccuracy (pow_ten_mul_pos digits) (by omega) (by decide) target
    (by decide) _ _

/-- The first power above the range has 1027 bits, three more than there is room for. -/
theorem isInf_of_upward (large : 308 < digits) : (powerOfTen digits).isInf = true := by
  have kept : (Format.binary64.mantissaBits : Int) = 53 := rfl
  have smallest : Format.binary64.minExponent = -1074 := rfl
  rw [isInf_eq, toModel_powerOfTen (by omega)]
  change (UnpackedFloat.unpack .binary64 (UnpackedFloat.pack .binary64 _)).isInf = true
  by_cases bounded : digits ≤ 2048
  · have long := le_log2_pow_ten 309 1026 large (by decide +kernel)
    have product := log2_pow_ten_mul digits
    have inside : Format.binary64.minExponent ≤
        (Nat.pow 10 digits * Nat.pow 2 53).log2 + (-53 : Int) := by omega
    rcases exists_roundWithAccuracy_eq_finite (pow_ten_mul_pos digits) inside .positive .exact with
      ⟨rounded, exponent, positive, value, -, target⟩
    have high : 974 ≤ exponent := by
      unfold Format.targetExponent totalExponent at target
      omega
    have exceeds : Nat.pow 2 11 ≤ (exponent + 1023 + 52).toNat + 1 := by
      have places : Nat.pow 2 11 = 2048 := rfl
      omega
    rw [ofScientific_of_nonneg bounded, value, unpack_pack_infinite .positive positive exceeds]
    rfl
  · have infinite : UnpackedFloat.ofScientific .binary64 1 digits = .infinity .positive := by
      have limit : (2 : Int) ^ Format.binary64.exponentBits = 2048 := rfl
      unfold UnpackedFloat.ofScientific
      rw [dif_neg (by decide), if_pos (by omega)]
    rw [infinite]
    rfl

end Upward

section Downward

variable {digits : Nat}

/-- The exponent of the last digit that is kept of a power of ten below one. -/
def lastExponent (digits : Nat) : Int :=
  max (-(Nat.pow 10 digits).log2 - 53) (-1074)

/-- One, counted in units of that last digit. -/
def dividend (digits : Nat) : Nat :=
  Nat.pow 2 (-lastExponent digits).toNat

theorem divCore_one_pow_ten (digits : Nat) :
    UnpackedFloat.divCore .binary64 1 0 (Nat.pow 10 digits) 0 =
      (dividend digits / Nat.pow 10 digits, lastExponent digits,
        UnpackedFloat.accuracyOfFraction (dividend digits % Nat.pow 10 digits)
          (Nat.pow 10 digits)) := by
  have target : min (0 - 0) (Format.binary64.targetExponent
      (totalExponent 1 0 - totalExponent (Nat.pow 10 digits) 0)) = lastExponent digits := by
    have one : Nat.log2 1 = 0 := rfl
    have kept : (Format.binary64.mantissaBits : Int) = 53 := rfl
    have smallest : Format.binary64.minExponent = -1074 := rfl
    unfold lastExponent Format.targetExponent totalExponent
    omega
  have shift : (0 - 0 - lastExponent digits).toNat = (-lastExponent digits).toNat := by omega
  dsimp only [UnpackedFloat.divCore]
  rw [target, shift, Nat.one_shiftLeft]
  rfl

/-- A power of ten below one is rounded from a quotient. -/
theorem ofScientific_of_neg (positive : 0 < digits) (bounded : digits ≤ 2048) :
    UnpackedFloat.ofScientific .binary64 1 (-digits) =
      UnpackedFloat.roundWithAccuracy .binary64 .positive (dividend digits / Nat.pow 10 digits)
        (lastExponent digits)
        (UnpackedFloat.accuracyOfFraction (dividend digits % Nat.pow 10 digits)
          (Nat.pow 10 digits)) := by
  have limit : (2 : Int) ^ Format.binary64.exponentBits = 2048 := rfl
  have divisor : 10 ^ (- -(digits : Int)).toNat = Nat.pow 10 digits := by
    rw [Int.neg_neg, Int.toNat_natCast]
    rfl
  unfold UnpackedFloat.ofScientific
  rw [dif_neg (by decide), if_neg (by omega), if_neg (by omega), if_neg (by omega)]
  dsimp only [UnpackedFloat.div]
  simp only [divisor, divCore_one_pow_ten]
  rfl

/-- One still counts as much as a divisor in range, so that the quotient is not zero. -/
theorem pow_ten_le_dividend (fits : digits ≤ 323) : Nat.pow 10 digits ≤ dividend digits := by
  have short := log2_pow_ten_le 323 1073 fits (by decide +kernel)
  have places : (Nat.pow 10 digits).log2 + 1 ≤ (-lastExponent digits).toNat := by
    unfold lastExponent
    omega
  apply Nat.le_of_lt
  calc Nat.pow 10 digits < Nat.pow 2 ((Nat.pow 10 digits).log2 + 1) := Nat.lt_log2_self
    _ ≤ dividend digits := Nat.pow_le_pow_right (by decide) places

/-- One is less than half of a divisor that is too large. -/
theorem two_mul_dividend_lt (large : 323 < digits) :
    2 * dividend digits < Nat.pow 10 digits := by
  have long := le_log2_pow_ten 324 1076 large (by decide +kernel)
  have places : (-lastExponent digits).toNat + 1 < (Nat.pow 10 digits).log2 := by
    unfold lastExponent
    omega
  calc 2 * dividend digits = Nat.pow 2 ((-lastExponent digits).toNat + 1) := Nat.pow_succ'.symm
    _ < Nat.pow 2 (Nat.pow 10 digits).log2 := Nat.pow_lt_pow_right (by decide) places
    _ ≤ Nat.pow 10 digits := Nat.log2_self_le (Nat.ne_of_gt (pow_ten_pos digits))

theorem isOrdinary_of_downward (large : 22 < digits) (fits : digits ≤ 323) :
    IsOrdinary (powerOfTen (-digits)) := by
  have value : powerOfTen (-digits) = .ofModel (.pack (UnpackedFloat.roundWithAccuracy .binary64
      .positive (dividend digits / Nat.pow 10 digits) (lastExponent digits)
      (UnpackedFloat.accuracyOfFraction (dividend digits % Nat.pow 10 digits)
        (Nat.pow 10 digits)))) := by
    rw [← ofScientific_of_neg (by omega) (by omega)]
    exact congrArg Float.ofModel (toModel_powerOfTen (by omega))
  have smallest : Format.binary64.minExponent = -1074 := rfl
  have least : -1074 ≤ lastExponent digits := Int.le_max_right _ _
  have negative : lastExponent digits ≤ 0 := by
    unfold lastExponent
    omega
  have quotient : 0 < dividend digits / Nat.pow 10 digits :=
    Nat.div_pos (pow_ten_le_dividend fits) (pow_ten_pos digits)
  have short : (dividend digits / Nat.pow 10 digits).log2 ≤ (-lastExponent digits).toNat :=
    log2_le_of_le (Nat.div_le_self _ _)
  have target : Format.binary64.targetExponent
      (totalExponent (dividend digits / Nat.pow 10 digits) (lastExponent digits)) ≤ 0 := by
    apply targetExponent_le
    · unfold totalExponent
      omega
    · decide
  rw [value]
  exact isOrdinary_pack_roundWithAccuracy quotient (by omega) negative target (by decide) _ _

/-- A power of ten that is less than half of the least positive number. -/
theorem ofScientific_of_tiny (large : 323 < digits) :
    UnpackedFloat.ofScientific .binary64 1 (-digits) = .zero .positive := by
  by_cases bounded : digits ≤ 2048
  · have half := two_mul_dividend_lt large
    have below : dividend digits < Nat.pow 10 digits := by omega
    have positive : dividend digits ≠ 0 := Nat.ne_of_gt (Nat.pow_pos (by decide))
    have long := le_log2_pow_ten 324 1076 large (by decide +kernel)
    have last : lastExponent digits = -1074 := by
      unfold lastExponent
      omega
    have fraction : UnpackedFloat.accuracyOfFraction (dividend digits) (Nat.pow 10 digits) =
        .inexact .lt := by
      unfold UnpackedFloat.accuracyOfFraction
      rw [if_neg positive, Nat.compare_eq_lt.mpr half]
    rw [ofScientific_of_neg (by omega) bounded, Nat.div_eq_of_lt below, Nat.mod_eq_of_lt below,
      fraction, last]
    rfl
  · have limit : (2 : Int) ^ Format.binary64.exponentBits = 2048 := rfl
    have one : Nat.log2 1 = 0 := rfl
    unfold UnpackedFloat.ofScientific
    rw [dif_neg (by decide), if_neg (by omega), if_pos (by omega)]

theorem beq_zero_of_downward (large : 323 < digits) :
    (powerOfTen (-digits) == 0) = true := by
  rw [beq_zero_eq, toModel_powerOfTen (by omega), ofScientific_of_tiny large]
  rfl

end Downward

/-- The small powers of ten and the greatest one are ordinary numbers. -/
theorem isOrdinary_of_table :
    (∀ digits : Fin 23, IsOrdinary (powerOfTen digits.val) ∧
      IsOrdinary (powerOfTen (-digits.val))) ∧ IsOrdinary (powerOfTen 308) := by
  have table : ∀ digits : Fin 23, ((powerOfTen digits.val).isFinite = true ∧
      (powerOfTen digits.val == 0) = false) ∧ (powerOfTen (-digits.val)).isFinite = true ∧
      (powerOfTen (-digits.val) == 0) = false := by decide +kernel
  have last : (powerOfTen 308).isFinite = true ∧ (powerOfTen 308 == 0) = false := by
    decide +kernel
  exact ⟨fun digits => ⟨⟨(table digits).1.1, (table digits).1.2⟩,
    (table digits).2.1, (table digits).2.2⟩, last.1, last.2⟩

/-- A power of ten that is neither too large nor too small is an ordinary number. -/
theorem isOrdinary_powerOfTen (least : -323 ≤ exponent) (greatest : exponent ≤ 308) :
    IsOrdinary (powerOfTen exponent) := by
  rcases Int.eq_nat_or_neg exponent with ⟨digits, rfl | rfl⟩
  · by_cases small : digits < 23
    · exact (isOrdinary_of_table.1 ⟨digits, small⟩).1
    · by_cases last : digits = 308
      · rw [last]
        exact isOrdinary_of_table.2
      · exact isOrdinary_of_upward (by omega) (by omega)
  · by_cases small : digits < 23
    · exact (isOrdinary_of_table.1 ⟨digits, small⟩).2
    · exact isOrdinary_of_downward (by omega) (by omega)

/-- The powers of ten that scale upward are ordinary numbers, too. -/
theorem isOrdinary_of_upwardExponents : ∀ exponent ∈ upwardExponents,
    (scalingPower exponent).isFinite = true ∧ (scalingPower exponent == 0) = false := by
  decide +kernel

theorem isOrdinary_scalingPower (least : -323 ≤ exponent) (greatest : exponent ≤ 308) :
    IsOrdinary (scalingPower exponent) := by
  by_cases upward : exponent ∈ upwardExponents
  · have ordinary := isOrdinary_of_upwardExponents exponent upward
    exact ⟨ordinary.1, ordinary.2⟩
  · unfold scalingPower
    rw [if_neg upward]
    exact isOrdinary_powerOfTen least greatest

theorem scalingPower_eq (outside : exponent < -323 ∨ 308 < exponent) :
    scalingPower exponent = powerOfTen exponent := by
  unfold scalingPower upwardExponents
  apply if_neg
  simp only [List.mem_cons, List.not_mem_nil, or_false]
  omega

theorem isInf_scalingPower (large : 308 < exponent) : (scalingPower exponent).isInf = true := by
  have digits : exponent = exponent.toNat := by omega
  rw [scalingPower_eq (.inr large), digits]
  exact isInf_of_upward (by omega)

theorem beq_zero_scalingPower (small : exponent < -323) : (scalingPower exponent == 0) = true := by
  have digits : exponent = -(-exponent).toNat := by omega
  rw [scalingPower_eq (.inl small), digits]
  exact beq_zero_of_downward (by omega)

theorem isInf_of_beq_zero {number : Float} (zero : (number == 0) = true) :
    number.isInf = false := by
  rw [beq_zero_eq] at zero
  rw [isInf_eq]
  cases value : number.toModel.unpack with
  | zero sign => rfl
  | _ =>
      rw [value] at zero
      exact absurd zero Bool.false_ne_true

/-- The powers of ten that are infinite. -/
theorem isInf_scalingPower_iff : (scalingPower exponent).isInf = true ↔ 308 < exponent := by
  refine ⟨fun infinite => Int.lt_of_not_ge fun fits => ?_, isInf_scalingPower⟩
  have finite : (scalingPower exponent).isInf = false := by
    by_cases small : exponent < -323
    · exact isInf_of_beq_zero (beq_zero_scalingPower small)
    · exact ((isFinite_iff _).mp (isOrdinary_scalingPower (by omega) fits).isFinite).2
  rw [finite] at infinite
  cases infinite

/-- The powers of ten that are zero. -/
theorem beq_zero_scalingPower_iff : (scalingPower exponent == 0) = true ↔ exponent < -323 := by
  refine ⟨fun zero => Int.lt_of_not_ge fun fits => ?_, beq_zero_scalingPower⟩
  by_cases large : 308 < exponent
  · have finite := isInf_of_beq_zero zero
    rw [isInf_scalingPower large] at finite
    cases finite
  · have nonzero := (isOrdinary_scalingPower fits (by omega)).nonzero
    rw [nonzero] at zero
    cases zero

end Rounding

end MediaQuery
