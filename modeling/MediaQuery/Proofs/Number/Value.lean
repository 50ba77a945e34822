import MediaQuery.Number.Numeral
import MediaQuery.Proofs.Number.Rounded

/-!
# The value of a numeral

A numeral writes an amount: its digits, each counted at its place, times a power of ten. Its value
is the number nearest to that amount, whatever the number of its digits and whatever its exponent.
-/

namespace MediaQuery

namespace Rounding

open Float.Model (UnpackedFloat Format totalExponent)

section Decimals

variable {mantissa : Nat} {exponent : Int}

theorem totalExponent_shift (positive : 0 < mantissa) (steps : Nat) (exponent : Int) :
    totalExponent (mantissa <<< steps) (exponent - steps) = totalExponent mantissa exponent := by
  have shifted : mantissa <<< steps = mantissa * Nat.pow 2 steps := Nat.shiftLeft_eq mantissa steps
  unfold totalExponent
  rw [shifted, log2_mul_pow positive]
  omega

theorem isRounded_pack_round (sign : UnpackedFloat.Sign) (positive : 0 < mantissa)
    (exponent : Int) :
    IsRounded sign (amount mantissa exponent)
      (Float.Model.pack (UnpackedFloat.round .binary64 sign mantissa exponent)).unpack := by
  dsimp only [UnpackedFloat.round, UnpackedFloat.decreaseExponent]
  generalize steps : (exponent - Format.binary64.targetExponent
    (totalExponent mantissa exponent)).toNat = shift
  have same : amount mantissa exponent = amount (mantissa <<< shift) (exponent - shift) := by
    have shifted : mantissa <<< shift = mantissa * Nat.pow 2 shift :=
      Nat.shiftLeft_eq mantissa shift
    rw [shifted, amount_mul_pow, Int.sub_add_cancel]
  rw [same]
  apply isRounded_pack
  · rw [totalExponent_shift positive]
    omega
  · exact approximates_exact _ _

/-- A natural number with 53 digits or fewer is the amount of a number. -/
theorem exists_amount_eq {number : Nat} (short : number < 2 * leadingBit) :
    ∃ mantissa exponent, IsBinary64 mantissa exponent ∧ exponent ≤ greatestExponent ∧
      amount mantissa exponent = number := by
  rcases Nat.eq_zero_or_pos number with rfl | positive
  · exact ⟨0, -1074, ⟨by decide, le_rfl, Or.inr rfl⟩, by decide, by simp⟩
  · have digits : number.log2 < 53 := (Nat.log2_lt positive.ne').mpr short
    have whole : ((-(52 - number.log2 : Nat) : Int) + (52 - number.log2 : Nat)) = 0 := by omega
    refine ⟨number * Nat.pow 2 (52 - number.log2), -(52 - number.log2 : Nat),
      ⟨?_, ?_, Or.inl ?_⟩, ?_, ?_⟩
    · calc number * Nat.pow 2 (52 - number.log2)
          < Nat.pow 2 (number.log2 + 1) * Nat.pow 2 (52 - number.log2) :=
            Nat.mul_lt_mul_of_pos_right Nat.lt_log2_self (Nat.pow_pos (by decide))
        _ = Nat.pow 2 (number.log2 + 1 + (52 - number.log2)) := (Nat.pow_add 2 _ _).symm
        _ = 2 * leadingBit := by
            rw [show number.log2 + 1 + (52 - number.log2) = 53 by omega]
            rfl
    · omega
    · calc leadingBit = Nat.pow 2 (number.log2 + (52 - number.log2)) := by
            rw [Nat.add_sub_cancel' (Nat.le_of_lt_succ digits)]
            rfl
        _ = Nat.pow 2 number.log2 * Nat.pow 2 (52 - number.log2) := Nat.pow_add 2 _ _
        _ ≤ number * Nat.pow 2 (52 - number.log2) :=
            Nat.mul_le_mul_right _ (Nat.log2_self_le positive.ne')
    · unfold greatestExponent
      omega
    · rw [amount_mul_pow, whole, amount, zpow_zero, mul_one]

/-- A word with 53 digits or fewer is taken as the number that it is. -/
theorem hasSize_ofUInt64 {word : UInt64} (short : word.toNat < 2 * leadingBit) :
    HasSize .positive word.toNat word.toFloat.toModel.unpack := by
  rcases exists_amount_eq short with ⟨mantissa, exponent, form, fits, same⟩
  have rounded : IsRounded .positive (amount word.toNat 0) word.toFloat.toModel.unpack := by
    change IsRounded _ _ (Float.Model.pack (UnpackedFloat.ofUInt64 .binary64 word)).unpack
    dsimp only [UnpackedFloat.ofUInt64, UnpackedFloat.ofNat, UnpackedFloat.ofInt,
      UnpackedFloat.normalize]
    rcases Nat.eq_zero_or_pos word.toNat with zero | positive
    · rw [zero, amount_zero]
      exact .zero isNearest_zero
    · have above : (0 : Int) < word.toNat := Int.natCast_pos.mpr positive
      rw [Int.compare_eq_gt.mpr above]
      exact isRounded_pack_round .positive positive 0
  have whole : amount word.toNat 0 = word.toNat := by rw [amount, zpow_zero, mul_one]
  rw [whole, ← same] at rounded
  rw [← same]
  exact rounded.hasSize form fits

/-- Whether a value is positive and has the size of a natural number. -/
def isWhole (size : Nat) : UnpackedFloat → Bool
  | .finite .positive mantissa exponent _ =>
      mantissa * Nat.pow 2 exponent.toNat == size * Nat.pow 2 (-exponent).toNat
  | _ => false

theorem hasSize_of_isWhole {size : Nat} {value : UnpackedFloat}
    (whole : isWhole size value = true) : HasSize .positive size value := by
  unfold isWhole at whole
  split at whole
  · rename_i mantissa exponent positive
    have scaled : (mantissa : ℚ) * 2 ^ exponent.toNat = size * 2 ^ (-exponent).toNat := by
      exact_mod_cast beq_iff_eq.mp whole
    have place : exponent = exponent.toNat - (-exponent).toNat := by omega
    have same : amount mantissa exponent = size := by
      rw [amount, place, zpow_sub₀ two_ne_zero, zpow_natCast, zpow_natCast, ← mul_div_assoc, scaled,
        mul_div_cancel_right₀ _ (pow_ne_zero _ two_ne_zero)]
    rw [← same]
    exact .finite positive
  · cases whole

/-- The small powers of ten are held without loss. -/
theorem isWhole_smallPowers : ∀ places : Fin 23, isWhole (Nat.pow 10 places)
    (Float.exactlyRepresentablePowersOfTen[places]).toModel.unpack = true := by
  decide +kernel

theorem amount_zero_exponent (mantissa : Nat) : amount mantissa 0 = mantissa := by
  rw [amount, zpow_zero, mul_one]

section Scaled

variable {digits : Nat}

/-- A decimal with a whole power of ten is rounded from a product. -/
theorem isRounded_pack_mul_pow (positive : 0 < digits) (places : Nat)
    (digitsPositive : 0 < digits <<< Format.binary64.mantissaBits) (power : 0 < 10 ^ places) :
    IsRounded .positive (digits * 10 ^ places) (Float.Model.pack (UnpackedFloat.mul .binary64
      (.finite .positive (digits <<< Format.binary64.mantissaBits)
        (-Format.binary64.mantissaBits) digitsPositive)
      (.finite .positive (10 ^ places) 0 power))).unpack := by
  generalize kept : Format.binary64.mantissaBits = bits at *
  have shifted : digits <<< bits = digits * Nat.pow 2 bits := Nat.shiftLeft_eq digits bits
  have long : leadingBit ≤ Nat.pow 2 bits :=
    Nat.pow_le_pow_right (by decide) (by rw [← kept]; decide)
  have full : leadingBit ≤ digits <<< bits * 10 ^ places := by
    rw [shifted]
    calc leadingBit ≤ Nat.pow 2 bits := long
      _ ≤ digits * Nat.pow 2 bits := Nat.le_mul_of_pos_left _ positive
      _ ≤ digits * Nat.pow 2 bits * 10 ^ places := Nat.le_mul_of_pos_right _ power
  have product := @isRounded_pack_mul _ _ (-bits) 0 .positive .positive digitsPositive power
    (Or.inl full)
  have whole : amount (digits <<< bits) (-bits) * amount (10 ^ places) 0 =
      digits * 10 ^ places := by
    rw [shifted, amount_mul_pow, Int.add_left_neg, amount_zero_exponent, amount_zero_exponent]
    push_cast
    rfl
  rw [whole] at product
  exact product

/-- A decimal with a power of ten below one is rounded from a quotient. -/
theorem isRounded_pack_div_pow (positive : 0 < digits) (places : Nat) (power : 0 < 10 ^ places) :
    IsRounded .positive (digits / 10 ^ places) (Float.Model.pack (UnpackedFloat.div .binary64
      (.finite .positive digits 0 positive) (.finite .positive (10 ^ places) 0 power))).unpack := by
  have quotient := @isRounded_pack_div _ _ 0 0 .positive .positive positive power
  rw [amount_zero_exponent, amount_zero_exponent] at quotient
  push_cast at quotient
  exact quotient

/-- A large power of ten is beyond all finite numbers. -/
theorem exceeds_of_large (positive : 0 < digits) {exponent : Int} (large : 1024 ≤ exponent) :
    (2 : ℚ) ^ 1024 ≤ digits * 10 ^ exponent := by
  have atLeastOne : (1 : ℚ) ≤ digits := Nat.one_le_cast.mpr positive
  have scale : (0 : ℚ) < 10 ^ exponent := zpow_pos (by norm_num) exponent
  calc (2 : ℚ) ^ 1024 = 2 ^ (1024 : Int) := (zpow_natCast 2 1024).symm
    _ ≤ 2 ^ exponent := zpow_le_zpow_right₀ one_le_two large
    _ ≤ 10 ^ exponent := zpow_le_zpow_left₀ (by omega) two_pos.le (by norm_num)
    _ ≤ digits * 10 ^ exponent := le_mul_of_one_le_left scale.le atLeastOne

/-- A small power of ten makes few digits less than half of the least positive number. -/
theorem lt_halfLeast_of_small {exponent : Int} (downward : exponent ≤ 0)
    (small : digits.log2 + 1 + exponent ≤ -1075) : digits * 10 ^ exponent < halfLeast := by
  have shorter : (digits : ℚ) < 2 ^ ((digits.log2 : Int) + 1) := by
    exact_mod_cast (Nat.lt_log2_self : digits < 2 ^ (digits.log2 + 1))
  have smaller : (10 : ℚ) ^ exponent ≤ 2 ^ exponent := by
    have reciprocal : ∀ base : ℚ, base ^ exponent = (base ^ (-exponent).toNat)⁻¹ := by
      intro base
      rw [← zpow_natCast, ← zpow_neg, Int.toNat_of_nonneg (by omega), Int.neg_neg]
    rw [reciprocal, reciprocal]
    exact inv_anti₀ (pow_pos two_pos _) (pow_le_pow_left₀ two_pos.le (by norm_num) _)
  calc (digits : ℚ) * 10 ^ exponent ≤ digits * 2 ^ exponent := by gcongr
    _ < 2 ^ ((digits.log2 : Int) + 1) * 2 ^ exponent := by gcongr
    _ = 2 ^ ((digits.log2 : Int) + 1 + exponent) := (zpow_add₀ two_ne_zero _ _).symm
    _ ≤ 2 ^ (-1074 - 1 : Int) := zpow_le_zpow_right₀ one_le_two small
    _ = halfLeast := by rw [zpow_sub_one₀ two_ne_zero, halfLeast, div_eq_mul_inv]

end Scaled

/-- Digits and a power of ten are rounded to the nearest number, also where they are clamped. -/
theorem isRounded_pack_ofScientific (digits : Nat) (exponent : Int) :
    IsRounded .positive (digits * 10 ^ exponent)
      (Float.Model.pack (UnpackedFloat.ofScientific .binary64 digits exponent)).unpack := by
  have limit : (2 : Int) ^ Format.binary64.exponentBits = 2048 := rfl
  unfold UnpackedFloat.ofScientific
  split
  · rename_i zero
    rw [zero, Nat.cast_zero, zero_mul, unpack_pack_zero]
    exact .zero isNearest_zero
  rename_i nonzero
  have positive : 0 < digits := Nat.pos_of_ne_zero nonzero
  split
  · rename_i large
    have infinite : (Float.Model.pack (.infinity .positive)).unpack = .infinity .positive := rfl
    rw [infinite]
    apply isRounded_infinity
    exact exceeds_of_large positive (by omega)
  split
  · rename_i small
    rw [unpack_pack_zero]
    have scale : (0 : ℚ) < 10 ^ exponent := zpow_pos (by norm_num) exponent
    apply isRounded_zero (mul_pos (Nat.cast_pos.mpr positive) scale)
    exact lt_halfLeast_of_small (by omega) (by omega)
  split
  · rename_i upward
    have places : exponent = exponent.toNat := by omega
    have product := isRounded_pack_mul_pow positive exponent.toNat
    rw [← zpow_natCast, ← places] at product
    exact product _ _
  · rename_i downward
    have places : exponent = -(-exponent).toNat := by omega
    have quotient := isRounded_pack_div_pow positive (-exponent).toNat
    rw [div_eq_mul_inv, ← zpow_natCast, ← zpow_neg, ← places] at quotient
    exact quotient _

/-- The number that decimal digits and a power of ten write is the one nearest to them. -/
theorem isRounded_ofScientific (digits : Nat) (exponent : Int) :
    IsRounded .positive (digits * 10 ^ exponent)
      (Float.ofScientific digits (decide (exponent < 0)) exponent.natAbs).toModel.unpack := by
  unfold Float.ofScientific
  split
  · rename_i small
    have word : digits.toUInt64.toNat = digits := Nat.mod_eq_of_lt (small.1.trans (by decide))
    have left : HasSize .positive digits digits.toUInt64.toFloat.toModel.unpack := by
      have short : digits.toUInt64.toNat < 2 * leadingBit := word.trans_lt small.1
      have held := hasSize_ofUInt64 short
      rwa [word] at held
    have right := hasSize_of_isWhole
      (isWhole_smallPowers ⟨exponent.natAbs, Nat.lt_succ_of_le small.2⟩)
    have power : ((Nat.pow 10 exponent.natAbs : Nat) : ℚ) = 10 ^ (exponent.natAbs : Int) := by
      rw [zpow_natCast, Nat.pow_eq, Nat.cast_pow]
      rfl
    rw [power] at right
    dsimp only
    split
    · rename_i negative
      have below := of_decide_eq_true negative
      have places : exponent = -exponent.natAbs := by omega
      have quotient := left.div right (zpow_ne_zero _ (by norm_num))
      rw [div_eq_mul_inv, ← zpow_neg, ← places] at quotient
      exact quotient
    · rename_i notNegative
      have above : ¬ exponent < 0 := fun below => notNegative (decide_eq_true below)
      have places : exponent = exponent.natAbs := by omega
      have product := left.mul right
      rw [← places] at product
      exact product
  · dsimp only
    rw [signed_natAbs]
    exact isRounded_pack_ofScientific digits exponent

theorem HasSize.isRounded {sign : UnpackedFloat.Sign} {size : ℚ} {number : Float}
    (has : HasSize sign size number.toModel.unpack) :
    IsRounded sign size number.toModel.unpack := by
  generalize unpacked : number.toModel.unpack = value at *
  cases has with
  | zero => exact .zero isNearest_zero
  | finite positive =>
      exact .finite positive (isNearest_amount (isBinary64_of_unpack unpacked))
        (exponent_le_of_unpack unpacked)

/-- A natural number as the nearest number. -/
theorem isRounded_ofNat (number : Nat) :
    IsRounded .positive number (Float.ofNat number).toModel.unpack := by
  have rounded := isRounded_ofScientific number 0
  rw [zpow_zero, mul_one] at rounded
  exact rounded

theorem isRounded_powerOfTen (exponent : Int) :
    IsRounded .positive (10 ^ exponent) (powerOfTen exponent).toModel.unpack := by
  have rounded := isRounded_ofScientific 1 exponent
  rw [Nat.cast_one, one_mul] at rounded
  exact rounded

theorem hasSize_ofNat {number : Nat} (short : number < 2 * leadingBit) :
    HasSize .positive number (Float.ofNat number).toModel.unpack := by
  rcases exists_amount_eq short with ⟨mantissa, exponent, form, fits, same⟩
  have rounded := isRounded_ofNat number
  rw [← same] at rounded ⊢
  exact rounded.hasSize form fits

theorem hasSize_powerOfTen {places : Nat} (small : places ≤ 22) :
    HasSize .positive (10 ^ places) (powerOfTen places).toModel.unpack := by
  have held := hasSize_of_isWhole (isWhole_smallPowers ⟨places, Nat.lt_succ_of_le small⟩)
  have power : ((Nat.pow 10 places : Nat) : ℚ) = 10 ^ places := by
    rw [Nat.pow_eq, Nat.cast_pow]
    rfl
  rw [power] at held
  have rounded := isRounded_powerOfTen places
  rw [zpow_natCast] at rounded
  rw [rounded.unique held.isRounded]
  exact held

end Decimals

end Rounding

namespace Numeral

open Float.Model (UnpackedFloat)

/--
The amount that a numeral writes, without its sign: the whole digits and the fraction digits, each
row counted in units of its last place, times the power of ten that the exponent says.
-/
def size (numeral : Numeral) : ℚ :=
  let whole := Nat.ofDigits 10 numeral.whole.reverse
  let places := Nat.ofDigits 10 numeral.fraction.reverse
  (whole + places / 10 ^ numeral.fraction.length) * 10 ^ numeral.exponent.getD 0

/-- The sign of a numeral. -/
def sign (numeral : Numeral) : UnpackedFloat.Sign :=
  if numeral.negative then .negative else .positive

/-- Whether a number is the nearest to the amount that a numeral writes, with the same sign. -/
def IsValue (numeral : Numeral) (value : Float) : Prop :=
  Rounding.IsRounded numeral.sign numeral.size value.toModel.unpack

theorem ofDigits_eq (digits : List Nat) : ofDigits digits = Nat.ofDigits 10 digits.reverse := by
  induction digits using List.reverseRecOn with
  | nil => rfl
  | append_singleton digits last ih =>
      have step : ofDigits (digits ++ [last]) = ofDigits digits * 10 + last := by
        simp [ofDigits]
      rw [step, ih, List.reverse_append, List.reverse_singleton, List.singleton_append,
        Nat.ofDigits_cons]
      ring

/-- The amount is that of all digits, counted in units of the last one. -/
theorem size_eq (numeral : Numeral) :
    numeral.size = ofDigits (numeral.whole ++ numeral.fraction) *
      10 ^ (numeral.exponent.getD 0 - numeral.fraction.length) := by
  have units : (10 : ℚ) ^ numeral.fraction.length ≠ 0 := pow_ne_zero _ (by norm_num)
  rw [ofDigits_eq, List.reverse_append, Nat.ofDigits_append, List.length_reverse, size,
    zpow_sub₀ (by norm_num), zpow_natCast]
  push_cast
  field_simp
  ring

theorem isValue_toFloat (numeral : Numeral) : numeral.IsValue numeral.toFloat := by
  have rounded := Rounding.isRounded_ofScientific (ofDigits (numeral.whole ++ numeral.fraction))
    (numeral.exponent.getD 0 - numeral.fraction.length)
  rw [← size_eq] at rounded
  unfold IsValue sign toFloat
  cases numeral.negative with
  | false => exact rounded
  | true => exact rounded.neg

/-- The value of a numeral is the number nearest to the amount that it writes. -/
theorem isValue_iff {numeral : Numeral} {value : Float} :
    numeral.IsValue value ↔ value = numeral.toFloat := by
  constructor
  · intro isValue
    exact Rounding.eq_of_unpack_eq (Rounding.IsRounded.unique isValue (isValue_toFloat numeral))
  · rintro rfl
    exact isValue_toFloat numeral

end Numeral

end MediaQuery
