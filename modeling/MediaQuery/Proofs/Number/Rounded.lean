import MediaQuery.Proofs.Number.Nearest
import MediaQuery.Proofs.Number.Precision

/-!
# Rounding to the nearest number

A number is rounded by keeping the front digits of an amount, with two bits that say whether those
left out make less than half of a unit, half of it or more. From these digits the choice between the
kept mantissa and the next one finds the number nearest to the amount. So products and quotients of
finite numbers are the numbers nearest to the products and quotients of their amounts.
-/

namespace MediaQuery

namespace Rounding

open Float.Model (UnpackedFloat Format totalExponent)

/--
How an amount, counted in units of the last digit that is kept, stands to the digits that are kept
of it and to what two bits say of the others.
-/
def Approximates (size : ℚ) : UnpackedFloat.ExtendedMantissa → Prop
  | ⟨mantissa, false, false⟩ => size = mantissa
  | ⟨mantissa, false, true⟩ => mantissa < size ∧ size < mantissa + 1 / 2
  | ⟨mantissa, true, false⟩ => size = mantissa + 1 / 2
  | ⟨mantissa, true, true⟩ => mantissa + 1 / 2 < size ∧ size < mantissa + 1

section Digits

variable {size : ℚ} {value : UnpackedFloat.ExtendedMantissa} {kept rounded : Nat}

/-- A digit that is shifted out goes on in the bits. -/
theorem Approximates.shiftRightOne (approximates : Approximates size value) :
    Approximates (size / 2) value.shiftRightOne := by
  rcases value with ⟨mantissa, roundBit, stickyBit⟩
  have whole : mantissa = 2 * (mantissa / 2) + (mantissa % 2 != 0).toNat := by
    have digits := Nat.div_add_mod mantissa 2
    rcases Nat.mod_two_eq_zero_or_one mantissa with even | odd
    · rw [even] at digits ⊢
      exact digits.symm
    · rw [odd] at digits ⊢
      exact digits.symm
  change Approximates _ ⟨mantissa / 2, mantissa % 2 != 0, roundBit || stickyBit⟩
  generalize mantissa / 2 = half at *
  generalize (mantissa % 2 != 0) = bit at *
  subst whole
  cases bit <;> cases roundBit <;> cases stickyBit <;>
    simp only [Approximates, Bool.or_self, Bool.or_false, Bool.or_true, Bool.toNat_false,
      Bool.toNat_true] at * <;>
    push_cast at approximates <;> first | linarith | (constructor <;> linarith)

theorem Approximates.shiftRight (approximates : Approximates size value) (steps : Nat) :
    Approximates (size / 2 ^ steps) (value >>> steps) := by
  change Approximates _ (Nat.repeat UnpackedFloat.ExtendedMantissa.shiftRightOne steps value)
  induction steps with
  | zero =>
      have none : size / 2 ^ 0 = size := by simp
      rw [none]
      exact approximates
  | succ steps ih =>
      rw [pow_succ, ← div_div]
      exact ih.shiftRightOne

/-- A rounded mantissa is as near to the amount as either neighbour, and nearer if it is odd. -/
structure IsBest (size : ℚ) (kept rounded : Nat) : Prop where
  choice : rounded = kept ∨ rounded = kept + 1
  below : |rounded - size| ≤ size - kept
  above : |rounded - size| ≤ kept + 1 - size
  odd : rounded % 2 = 1 → (rounded = kept ∨ |rounded - size| < size - kept) ∧
    (rounded = kept + 1 ∨ |rounded - size| < kept + 1 - size)

theorem Approximates.isBest (approximates : Approximates size value) :
    IsBest size value.mantissa value.roundedMantissa := by
  rcases value with ⟨mantissa, _ | _, _ | _⟩
  all_goals
    simp only [Approximates, UnpackedFloat.ExtendedMantissa.roundedMantissa,
      UnpackedFloat.ExtendedMantissa.accuracy, UnpackedFloat.Accuracy.roundToNearestEven] at *
  · subst approximates
    constructor <;> simp
  · rcases approximates with ⟨_, _⟩
    have distance : |(mantissa : ℚ) - size| = size - mantissa := by
      rw [abs_of_nonpos] <;> linarith
    refine ⟨Or.inl rfl, distance.le, ?_, fun _ => ⟨Or.inl rfl, Or.inr ?_⟩⟩ <;> rw [distance] <;>
      linarith
  · have even : (mantissa + mantissa % 2) % 2 = 0 := by omega
    have distance : |((mantissa + mantissa % 2 : Nat) : ℚ) - size| = 1 / 2 := by
      rcases Nat.mod_two_eq_zero_or_one mantissa with none | one
      · rw [none, approximates, add_zero]
        norm_num
      · rw [one, approximates]
        push_cast
        norm_num
    refine ⟨by omega, ?_, ?_, fun odd => by omega⟩ <;> rw [distance] <;> linarith
  · rcases approximates with ⟨_, _⟩
    have distance : |((mantissa + 1 : Nat) : ℚ) - size| = mantissa + 1 - size := by
      push_cast
      rw [abs_of_nonneg]; linarith
    refine ⟨Or.inr rfl, ?_, distance.le, fun _ => ⟨Or.inr ?_, Or.inl rfl⟩⟩ <;> rw [distance] <;>
      linarith

/-- The best of two neighbours is as near as any amount that does not lie between them. -/
theorem IsBest.le (best : IsBest size kept rounded) {other : ℚ}
    (outside : other ≤ kept ∨ kept + 1 ≤ other) : |rounded - size| ≤ |other - size| := by
  rcases outside with below | above
  · calc |rounded - size| ≤ size - kept := best.below
      _ ≤ -(other - size) := by linarith
      _ ≤ |other - size| := neg_le_abs _
  · calc |rounded - size| ≤ kept + 1 - size := best.above
      _ ≤ other - size := by linarith
      _ ≤ |other - size| := le_abs_self _

/-- The best of two neighbours is even if another amount is as near. -/
theorem IsBest.even (best : IsBest size kept rounded) {other : ℚ}
    (outside : other ≤ kept ∨ kept + 1 ≤ other) (differs : other ≠ rounded)
    (tie : |other - size| = |rounded - size|) : rounded % 2 = 0 := by
  rcases Nat.mod_two_eq_zero_or_one rounded with even | odd
  · exact even
  · rcases best.odd odd with ⟨below, above⟩
    exfalso
    rcases outside with notAbove | notBelow
    · have far : size - other ≤ |rounded - size| := by
        rw [← tie, ← neg_sub]
        exact neg_le_abs _
      have close := best.below
      have same : other = kept := by linarith
      rcases below with chosen | nearer
      · exact differs (by rw [same, chosen])
      · linarith
    · have far : other - size ≤ |rounded - size| := by
        rw [← tie]
        exact le_abs_self _
      have close := best.above
      have same : other = kept + 1 := by linarith
      rcases above with chosen | nearer
      · exact differs (by rw [same, chosen]; push_cast; rfl)
      · linarith

variable {mantissa : Nat} {exponent otherExponent : Int}

/-- The best of two neighbours is the nearest of all numbers. -/
theorem IsBest.isNearest (best : IsBest (size / 2 ^ exponent) kept rounded)
    (keptForm : IsBinary64 kept exponent) (form : IsBinary64 mantissa otherExponent)
    (same : amount mantissa otherExponent = amount rounded exponent)
    (parity : rounded % 2 = 0 → mantissa % 2 = 0) : IsNearest size mantissa otherExponent := by
  have unit := unit_pos exponent
  have distance : ∀ other : ℚ,
      |other - size| = |other / 2 ^ exponent - size / 2 ^ exponent| * 2 ^ exponent := by
    intro other
    rw [← abs_of_pos unit, ← abs_mul, abs_of_pos unit, sub_mul, div_mul_cancel₀ _ unit.ne',
      div_mul_cancel₀ _ unit.ne']
  have counted : ∀ mantissa : Nat, amount mantissa exponent / 2 ^ exponent = mantissa :=
    fun mantissa => mul_div_cancel_right₀ _ unit.ne'
  have outside : ∀ {other : Nat} {place : Int}, IsBinary64 other place →
      amount other place / 2 ^ exponent ≤ kept ∨ kept + 1 ≤ amount other place / 2 ^ exponent := by
    intro other place otherForm
    rw [div_le_iff₀ unit, le_div_iff₀ unit]
    have sides := amount_le_or_le keptForm otherForm
    rw [amount.eq_1 (kept + 1), Nat.cast_succ] at sides
    exact sides
  constructor
  · exact form
  · intro other place otherForm
    rw [same, distance, distance (amount other place), counted]
    exact mul_le_mul_of_nonneg_right (best.le (outside otherForm)) unit.le
  · intro other place otherForm differs tie
    rw [same, distance, distance (amount rounded exponent), counted] at tie
    refine parity (best.even (outside otherForm) ?_ (mul_right_cancel₀ unit.ne' tie))
    intro equal
    rw [div_eq_iff unit.ne'] at equal
    exact differs (equal.trans same.symm)

end Digits

section Round

variable {size : ℚ} {mantissa : Nat} {exponent : Int} {accuracy : UnpackedFloat.Accuracy}

/-- A mantissa with all digits that are kept, or more, is shifted to a place in the format. -/
theorem isBinary64_shiftToTargetExponent (accuracy : UnpackedFloat.Accuracy)
    (low : exponent ≤ Format.binary64.targetExponent (totalExponent mantissa exponent)) :
    let shifted := UnpackedFloat.shiftToTargetExponent .binary64 mantissa exponent accuracy
    IsBinary64 shifted.1.mantissa shifted.2 := by
  have short := mantissa_shiftToTargetExponent_lt .binary64 mantissa exponent accuracy
  have least := minExponent_le_targetExponent .binary64 (totalExponent mantissa exponent)
  have kept : (Format.binary64.mantissaBits : Int) = 53 := rfl
  have smallest : Format.binary64.minExponent = -1074 := rfl
  have target : (UnpackedFloat.shiftToTargetExponent .binary64 mantissa exponent accuracy).2 =
      Format.binary64.targetExponent (totalExponent mantissa exponent) := by
    dsimp only [UnpackedFloat.shiftToTargetExponent, UnpackedFloat.shiftToExponent]
    omega
  refine ⟨short, by omega, ?_⟩
  rw [target]
  by_cases subnormal : Format.binary64.targetExponent (totalExponent mantissa exponent) = -1074
  · exact Or.inr subnormal
  · left
    dsimp only [UnpackedFloat.shiftToTargetExponent, UnpackedFloat.shiftToExponent]
    rw [mantissa_shiftRight, mantissa_ofMantissaAndAccuracy]
    generalize steps : (Format.binary64.targetExponent (totalExponent mantissa exponent) -
      exponent).toNat = shift
    have digits : mantissa.log2 = 52 + shift := by
      unfold Format.targetExponent totalExponent at *
      omega
    have nonzero : mantissa ≠ 0 := by
      rintro rfl
      rw [Nat.log2_zero] at digits
      omega
    apply (Nat.le_div_iff_mul_le (Nat.pow_pos (by decide))).mpr
    calc leadingBit * Nat.pow 2 shift = Nat.pow 2 (52 + shift) := (Nat.pow_add 2 52 shift).symm
      _ = Nat.pow 2 mantissa.log2 := by rw [digits]
      _ ≤ mantissa := Nat.log2_self_le nonzero

theorem Approximates.shiftToTargetExponent
    (approximates : Approximates (size / 2 ^ exponent) (.ofMantissaAndAccuracy mantissa accuracy)) :
    let shifted := UnpackedFloat.shiftToTargetExponent .binary64 mantissa exponent accuracy
    Approximates (size / 2 ^ shifted.2) shifted.1 := by
  dsimp only [UnpackedFloat.shiftToTargetExponent, UnpackedFloat.shiftToExponent]
  rw [zpow_add₀ two_ne_zero, zpow_natCast, ← div_div]
  exact approximates.shiftRight _

theorem mantissa_shiftToTargetExponent_zero (exponent : Int) :
    (UnpackedFloat.shiftToTargetExponent .binary64 0 exponent .exact).1.mantissa = 0 := by
  dsimp only [UnpackedFloat.shiftToTargetExponent, UnpackedFloat.shiftToExponent]
  rw [mantissa_shiftRight, mantissa_ofMantissaAndAccuracy, Nat.zero_div]

/-- What is rounded is the nearest number to the amount that is approximated. -/
theorem exists_roundWithAccuracy_eq (sign : UnpackedFloat.Sign)
    (low : exponent ≤ Format.binary64.targetExponent (totalExponent mantissa exponent))
    (approximates : Approximates (size / 2 ^ exponent)
      (.ofMantissaAndAccuracy mantissa accuracy)) :
    (IsNearest size 0 (-1074) ∧
        UnpackedFloat.roundWithAccuracy .binary64 sign mantissa exponent accuracy = .zero sign) ∨
      ∃ (rounded : Nat) (other : Int) (positive : 0 < rounded), IsNearest size rounded other ∧
        UnpackedFloat.roundWithAccuracy .binary64 sign mantissa exponent accuracy =
          .finite sign rounded other positive := by
  have form := isBinary64_shiftToTargetExponent accuracy low
  have best := approximates.shiftToTargetExponent.isBest
  dsimp only [UnpackedFloat.roundWithAccuracy]
  generalize UnpackedFloat.shiftToTargetExponent .binary64 mantissa exponent accuracy = shifted at *
  rcases form.exists_of_le best.choice with ⟨_, roundedForm⟩ | ⟨carry, roundedForm⟩
  · have nearest := best.isNearest form roundedForm rfl id
    rcases Nat.eq_zero_or_pos shifted.1.roundedMantissa with zero | positive
    · left
      rw [zero] at nearest roundedForm ⊢
      have smallest : shifted.2 = -1074 := roundedForm.full.resolve_left (by decide)
      rw [dif_pos (mantissa_shiftToTargetExponent_zero shifted.2)]
      exact ⟨smallest ▸ nearest, rfl⟩
    · right
      have again := shiftToTargetExponent_exact roundedForm positive 0
      rw [Nat.pow_eq, Nat.pow_zero, Nat.mul_one, Int.natCast_zero, Int.sub_zero] at again
      simp only [again, Nat.ne_of_gt positive, dite_false]
      exact ⟨_, _, positive, nearest, rfl⟩
  · -- The carry makes one digit too many, which is a zero.
    right
    have positive : 0 < leadingBit := by decide
    have again := shiftToTargetExponent_exact roundedForm positive 1
    rw [Int.natCast_one, Int.add_sub_cancel] at again
    have same : amount leadingBit (shifted.2 + 1) =
        amount shifted.1.roundedMantissa shifted.2 := by
      rw [carry]
      exact (amount_mul_pow leadingBit shifted.2 1).symm
    have nearest := best.isNearest form roundedForm same (fun _ => by decide)
    simp only [carry, again, Nat.ne_of_gt positive, dite_false]
    exact ⟨_, _, positive, nearest, rfl⟩

end Round

section Pack

variable {size : ℚ} {mantissa : Nat} {exponent : Int} {accuracy : UnpackedFloat.Accuracy}

/-- What is rounded and put together is the number nearest to the amount that is approximated. -/
theorem isRounded_pack (sign : UnpackedFloat.Sign)
    (low : exponent ≤ Format.binary64.targetExponent (totalExponent mantissa exponent))
    (approximates : Approximates (size / 2 ^ exponent)
      (.ofMantissaAndAccuracy mantissa accuracy)) :
    IsRounded sign size (Float.Model.pack
      (UnpackedFloat.roundWithAccuracy .binary64 sign mantissa exponent accuracy)).unpack := by
  rcases exists_roundWithAccuracy_eq sign low approximates with
    ⟨nearest, value⟩ | ⟨rounded, other, positive, nearest, value⟩
  · rw [value, unpack_pack_zero]
    exact .zero nearest
  · rw [value]
    by_cases fits : other ≤ greatestExponent
    · rw [unpack_pack_of_isBinary64 nearest.form fits]
      exact .finite positive nearest fits
    · have exceeds : Nat.pow 2 11 ≤ (other + 1023 + 52).toNat + 1 := by
        have places : Nat.pow 2 11 = 2048 := rfl
        unfold greatestExponent at fits
        omega
      have infinite : (Float.Model.pack (.finite sign rounded other positive)).unpack =
          .infinity sign := unpack_pack_infinite sign positive exceeds
      rw [infinite]
      exact .infinity nearest (Int.lt_of_not_ge fits)

/-- A mantissa of full length, or the smallest exponent, leaves no digit out. -/
theorem le_targetExponent (full : leadingBit ≤ mantissa ∨ exponent ≤ -1074) :
    exponent ≤ Format.binary64.targetExponent (totalExponent mantissa exponent) := by
  have kept : (Format.binary64.mantissaBits : Int) = 53 := rfl
  have smallest : Format.binary64.minExponent = -1074 := rfl
  rcases full with full | low
  · have positive : mantissa ≠ 0 := by
      have leading : 0 < leadingBit := by decide
      omega
    have digits : 52 ≤ mantissa.log2 := (Nat.le_log2 positive).mpr full
    unfold Format.targetExponent totalExponent
    omega
  · unfold Format.targetExponent
    omega

theorem approximates_exact (mantissa : Nat) (exponent : Int) :
    Approximates (amount mantissa exponent / 2 ^ exponent)
      (.ofMantissaAndAccuracy mantissa .exact) :=
  mul_div_cancel_right₀ _ (unit_pos exponent).ne'

end Pack

section Operations

variable {left right : Nat} {leftExponent rightExponent : Int}

theorem amount_mul (left right : Nat) (leftExponent rightExponent : Int) :
    amount left leftExponent * amount right rightExponent =
      amount (left * right) (leftExponent + rightExponent) := by
  unfold amount
  rw [zpow_add₀ two_ne_zero]
  push_cast
  ring

theorem isRounded_pack_mul (leftSign rightSign : UnpackedFloat.Sign) (leftPositive : 0 < left)
    (rightPositive : 0 < right)
    (full : leadingBit ≤ left * right ∨ leftExponent + rightExponent ≤ -1074) :
    IsRounded (leftSign * rightSign) (amount left leftExponent * amount right rightExponent)
      (Float.Model.pack (UnpackedFloat.mul .binary64
        (.finite leftSign left leftExponent leftPositive)
        (.finite rightSign right rightExponent rightPositive))).unpack := by
  rw [amount_mul]
  exact isRounded_pack _ (le_targetExponent full) (approximates_exact _ _)

/-- What a proper fraction adds to a quotient is said by how its double stands to one. -/
theorem approximates_proper (quotient : Nat) {rest divisor : Nat} (below : rest < divisor) :
    Approximates (quotient + rest / divisor) (.ofMantissaAndAccuracy quotient
      (UnpackedFloat.accuracyOfFraction rest divisor)) := by
  have divisorPositive : (0 : ℚ) < divisor := Nat.cast_pos.mpr (Nat.zero_lt_of_lt below)
  have proper : (rest : ℚ) / divisor < 1 := by
    rw [div_lt_one divisorPositive]
    exact Nat.cast_lt.mpr below
  unfold UnpackedFloat.accuracyOfFraction
  split
  · rename_i none
    simp [none, Approximates, UnpackedFloat.ExtendedMantissa.ofMantissaAndAccuracy]
  · rename_i some
    have present : (0 : ℚ) < rest / divisor :=
      div_pos (Nat.cast_pos.mpr (Nat.pos_of_ne_zero some)) divisorPositive
    rcases Nat.lt_trichotomy (2 * rest) divisor with less | half | more
    · rw [Nat.compare_eq_lt.mpr less]
      have less : (rest : ℚ) / divisor < 1 / 2 := by
        rw [div_lt_div_iff₀ divisorPositive two_pos]
        exact_mod_cast (by omega)
      constructor <;> linarith
    · rw [Nat.compare_eq_eq.mpr half]
      have half : (rest : ℚ) / divisor = 1 / 2 := by
        rw [div_eq_div_iff divisorPositive.ne' two_ne_zero]
        exact_mod_cast (by omega)
      change (_ : ℚ) = _
      rw [half]
    · rw [Nat.compare_eq_gt.mpr more]
      have more : 1 / 2 < (rest : ℚ) / divisor := by
        rw [div_lt_div_iff₀ two_pos divisorPositive]
        exact_mod_cast (by omega)
      constructor <;> linarith

theorem approximates_fraction (dividend : Nat) {divisor : Nat} (positive : 0 < divisor) :
    Approximates (dividend / divisor) (.ofMantissaAndAccuracy (dividend / divisor)
      (UnpackedFloat.accuracyOfFraction (dividend % divisor) divisor)) := by
  have whole : (dividend : ℚ) =
      divisor * (dividend / divisor : Nat) + (dividend % divisor : Nat) := by
    exact_mod_cast (Nat.div_add_mod dividend divisor).symm
  have parts : (dividend : ℚ) / divisor =
      (dividend / divisor : Nat) + (dividend % divisor : Nat) / divisor := by
    rw [whole, add_div, mul_div_cancel_left₀ _ (Nat.cast_ne_zero.mpr positive.ne')]
  rw [parts]
  exact approximates_proper _ (Nat.mod_lt dividend positive)

/-- A dividend that is shifted far enough gives a quotient of full length. -/
theorem leadingBit_le_div {shift : Nat} (positive : 0 < right) (leftPositive : 0 < left)
    (long : right.log2 + 53 ≤ left.log2 + shift) : leadingBit ≤ left <<< shift / right := by
  apply (Nat.le_div_iff_mul_le positive).mpr
  calc leadingBit * right ≤ leadingBit * Nat.pow 2 (right.log2 + 1) :=
        Nat.mul_le_mul_left _ Nat.lt_log2_self.le
    _ = Nat.pow 2 (right.log2 + 53) := by
        rw [Nat.add_comm right.log2 53]
        exact (Nat.pow_add 2 52 (right.log2 + 1)).symm.trans (by congr 1; omega)
    _ ≤ Nat.pow 2 (left.log2 + shift) := Nat.pow_le_pow_right (by decide) long
    _ = Nat.pow 2 left.log2 * Nat.pow 2 shift := Nat.pow_add 2 _ _
    _ ≤ left * Nat.pow 2 shift :=
        Nat.mul_le_mul_right _ (Nat.log2_self_le leftPositive.ne')
    _ = left <<< shift := (Nat.shiftLeft_eq left shift).symm

/-- A quotient of amounts is counted in the place to which the dividend is shifted. -/
theorem amount_div_amount (left right : Nat) (exponent rightExponent : Int) (shift : Nat) :
    amount left (exponent + shift + rightExponent) / amount right rightExponent / 2 ^ exponent =
      ((left <<< shift : Nat) : ℚ) / right := by
  have unit := (unit_pos exponent).ne'
  have rightUnit := (unit_pos rightExponent).ne'
  unfold amount
  rw [zpow_add₀ two_ne_zero, zpow_add₀ two_ne_zero, zpow_natCast, Nat.shiftLeft_eq]
  push_cast
  field_simp

/-- A quotient is computed with all digits that are kept, and with what is left of it. -/
theorem divCore_spec (left : Nat) (leftExponent : Int) (positive : 0 < right)
    (leftPositive : 0 < left) (rightExponent : Int) :
    let (mantissa, exponent, accuracy) :=
      UnpackedFloat.divCore .binary64 left leftExponent right rightExponent
    exponent ≤ Format.binary64.targetExponent (totalExponent mantissa exponent) ∧
      Approximates (amount left leftExponent / amount right rightExponent / 2 ^ exponent)
        (.ofMantissaAndAccuracy mantissa accuracy) := by
  dsimp only [UnpackedFloat.divCore]
  generalize target : min (leftExponent - rightExponent) (Format.binary64.targetExponent
    (totalExponent left leftExponent - totalExponent right rightExponent)) = exponent
  generalize steps : (leftExponent - rightExponent - exponent).toNat = shift
  constructor
  · apply le_targetExponent
    by_cases low : exponent ≤ -1074
    · exact Or.inr low
    · left
      have kept : (Format.binary64.mantissaBits : Int) = 53 := rfl
      have smallest : Format.binary64.minExponent = -1074 := rfl
      have long : right.log2 + 53 ≤ left.log2 + shift := by
        unfold Format.targetExponent totalExponent at target
        omega
      exact leadingBit_le_div positive leftPositive long
  · have place : leftExponent = exponent + shift + rightExponent := by omega
    rw [place, amount_div_amount]
    exact approximates_fraction _ positive

theorem isRounded_pack_div (leftSign rightSign : UnpackedFloat.Sign) (leftPositive : 0 < left)
    (rightPositive : 0 < right) :
    IsRounded (leftSign / rightSign) (amount left leftExponent / amount right rightExponent)
      (Float.Model.pack (UnpackedFloat.div .binary64
        (.finite leftSign left leftExponent leftPositive)
        (.finite rightSign right rightExponent rightPositive))).unpack := by
  have quotient := divCore_spec left leftExponent rightPositive leftPositive rightExponent
  exact isRounded_pack _ quotient.1 quotient.2

end Operations

section Exact

variable {mantissa other : Nat} {exponent otherExponent : Int} {size : ℚ}
  {sign : UnpackedFloat.Sign} {value : UnpackedFloat}

/-- The amount of a finite number without its sign. -/
inductive HasSize (sign : UnpackedFloat.Sign) : ℚ → UnpackedFloat → Prop
  | zero : HasSize sign 0 (.zero sign)
  | finite {mantissa : Nat} {exponent : Int} (positive : 0 < mantissa) :
      HasSize sign (amount mantissa exponent) (.finite sign mantissa exponent positive)

theorem isNearest_amount (form : IsBinary64 mantissa exponent) :
    IsNearest (amount mantissa exponent) mantissa exponent := by
  constructor
  · exact form
  · intro other otherExponent otherForm
    rw [sub_self, abs_zero]
    exact abs_nonneg _
  · intro other otherExponent otherForm differs tie
    rw [sub_self, abs_zero, abs_eq_zero, sub_eq_zero] at tie
    exact absurd tie differs

theorem isNearest_zero : IsNearest 0 0 (-1074) := by
  have form : IsBinary64 0 (-1074) := ⟨by decide, le_rfl, Or.inr rfl⟩
  have nearest := isNearest_amount form
  rwa [amount_zero] at nearest

/-- What is the amount of a number is held without loss. -/
theorem IsRounded.hasSize (rounded : IsRounded sign (amount mantissa exponent) value)
    (form : IsBinary64 mantissa exponent) (fits : exponent ≤ greatestExponent) :
    HasSize sign (amount mantissa exponent) value := by
  have exact := isNearest_amount form
  cases rounded with
  | zero nearest =>
      rw [(exact.unique nearest).1, amount_zero]
      exact .zero
  | finite positive nearest _ =>
      rcases exact.unique nearest with ⟨rfl, rfl⟩
      exact .finite positive
  | infinity nearest exceeds =>
      rw [← (exact.unique nearest).2] at exceeds
      exact absurd fits exceeds.not_ge

/-- Each amount has a nearest number. -/
theorem exists_isNearest (nonneg : 0 ≤ size) :
    ∃ mantissa exponent, IsNearest size mantissa exponent := by
  rcases nonneg.eq_or_lt with rfl | positive
  · exact ⟨0, -1074, isNearest_zero⟩
  · have numerator : 0 < size.num.toNat := by
      have := Rat.num_pos.mpr positive
      omega
    have quotient := divCore_spec size.num.toNat 0 size.den_pos numerator 0
    have whole : amount size.num.toNat 0 / amount size.den 0 = size := by
      have same : ((size.num.toNat : Int) : ℚ) = size.num := by
        rw [Int.toNat_of_nonneg (Rat.num_nonneg.mpr nonneg)]
      rw [amount, amount, zpow_zero, mul_one, mul_one, ← Int.cast_natCast, same, Rat.num_div_den]
    rw [whole] at quotient
    rcases exists_roundWithAccuracy_eq .positive quotient.1 quotient.2 with
      ⟨nearest, _⟩ | ⟨mantissa, exponent, _, nearest, _⟩
    · exact ⟨_, _, nearest⟩
    · exact ⟨_, _, nearest⟩

theorem amount_leadingBit (exponent : Nat) : amount leadingBit exponent = 2 ^ (52 + exponent) := by
  have leading : (leadingBit : ℚ) = 2 ^ 52 := by norm_num [leadingBit]
  rw [amount, leading, zpow_natCast, pow_add]

/-- An amount beyond all finite numbers is infinite. -/
theorem isRounded_infinity (exceeds : 2 ^ 1024 ≤ size) (sign : UnpackedFloat.Sign) :
    IsRounded sign size (.infinity sign) := by
  rcases exists_isNearest ((pow_pos two_pos 1024).le.trans exceeds) with
    ⟨mantissa, exponent, nearest⟩
  have form : IsBinary64 leadingBit 972 := ⟨by decide, by decide, Or.inl le_rfl⟩
  have limit : amount leadingBit 972 = 2 ^ 1024 := amount_leadingBit 972
  have large := nearest.le form (limit.trans_le exceeds)
  refine .infinity nearest (lt_of_not_ge fun fits => ?_)
  have lower : exponent < 972 := Int.lt_of_le_of_lt fits (by decide)
  exact absurd large (amount_lt_of_exponent_lt nearest.form form lower).not_ge

/-- The greatest amount of a finite number. -/
def greatest : ℚ :=
  amount (2 * leadingBit - 1) greatestExponent

/-- Each amount up to the greatest finite one is finite. -/
theorem IsRounded.isInf (rounded : IsRounded sign size value) (bounded : size ≤ greatest) :
    value.isInf = false := by
  cases rounded with
  | zero => rfl
  | finite => rfl
  | infinity nearest exceeds =>
      have form : IsBinary64 (2 * leadingBit - 1) greatestExponent :=
        ⟨by decide, by decide, Or.inl (by decide)⟩
      have small := nearest.ge form bounded
      exact absurd small (amount_lt_of_exponent_lt form nearest.form exceeds).not_ge

theorem pow_le_greatest {power : Nat} (fits : power ≤ 1023) : 2 ^ power ≤ greatest := by
  have limit : amount leadingBit 971 = 2 ^ 1023 := amount_leadingBit 971
  calc (2 : ℚ) ^ power ≤ 2 ^ 1023 := pow_le_pow_right₀ one_le_two fits
    _ = amount leadingBit 971 := limit.symm
    _ ≤ greatest := amount_mono (by decide) 971

/-- Half of the least positive number. -/
def halfLeast : ℚ :=
  2 ^ (-1074 : Int) / 2

/-- An amount below half of the least positive number is zero. -/
theorem isRounded_zero (positive : 0 < size) (small : size < halfLeast)
    (sign : UnpackedFloat.Sign) : IsRounded sign size (.zero sign) := by
  have form : IsBinary64 0 (-1074) := ⟨by decide, le_rfl, Or.inr rfl⟩
  have unit := unit_pos (-1074)
  have approximates : Approximates (size / 2 ^ (-1074 : Int)) ⟨0, false, true⟩ := by
    constructor
    · rw [Nat.cast_zero]
      exact div_pos positive unit
    · rw [Nat.cast_zero, zero_add, div_lt_iff₀ unit, mul_comm, mul_one_div]
      exact small
  exact .zero (approximates.isBest.isNearest form form rfl id)

end Exact

section Arithmetic

variable {left right : Float} {leftSign rightSign : UnpackedFloat.Sign} {leftSize rightSize : ℚ}

/-- The product of finite numbers is the number nearest to the product of their amounts. -/
theorem HasSize.mul (leftHas : HasSize leftSign leftSize left.toModel.unpack)
    (rightHas : HasSize rightSign rightSize right.toModel.unpack) :
    IsRounded (leftSign * rightSign) (leftSize * rightSize) (left * right).toModel.unpack := by
  change IsRounded _ _ (Float.Model.pack (UnpackedFloat.mul .binary64 left.toModel.unpack
    right.toModel.unpack)).unpack
  generalize leftValue : left.toModel.unpack = first at *
  generalize rightValue : right.toModel.unpack = second at *
  cases leftHas with
  | zero =>
      rw [zero_mul]
      cases rightHas <;>
      · dsimp only [UnpackedFloat.mul]
        rw [unpack_pack_zero]
        exact .zero isNearest_zero
  | @finite leftMantissa leftExponent leftPositive =>
      cases rightHas with
      | zero =>
          rw [mul_zero]
          dsimp only [UnpackedFloat.mul]
          rw [unpack_pack_zero]
          exact .zero isNearest_zero
      | @finite rightMantissa rightExponent rightPositive =>
          apply isRounded_pack_mul
          have leftForm := isBinary64_of_unpack leftValue
          have rightForm := isBinary64_of_unpack rightValue
          rcases leftForm.full with full | leftSmallest
          · exact Or.inl (full.trans (Nat.le_mul_of_pos_right _ rightPositive))
          · rcases rightForm.full with full | rightSmallest
            · exact Or.inl (full.trans (Nat.le_mul_of_pos_left _ leftPositive))
            · exact Or.inr (by omega)

/-- The quotient of finite numbers is the number nearest to the quotient of their amounts. -/
theorem HasSize.div (leftHas : HasSize leftSign leftSize left.toModel.unpack)
    (rightHas : HasSize rightSign rightSize right.toModel.unpack) (nonzero : rightSize ≠ 0) :
    IsRounded (leftSign / rightSign) (leftSize / rightSize) (left / right).toModel.unpack := by
  change IsRounded _ _ (Float.Model.pack (UnpackedFloat.div .binary64 left.toModel.unpack
    right.toModel.unpack)).unpack
  generalize left.toModel.unpack = first at *
  generalize right.toModel.unpack = second at *
  cases rightHas with
  | zero => exact absurd rfl nonzero
  | finite rightPositive =>
      cases leftHas with
      | zero =>
          rw [zero_div]
          dsimp only [UnpackedFloat.div]
          rw [unpack_pack_zero]
          exact .zero isNearest_zero
      | finite leftPositive => exact isRounded_pack_div _ _ leftPositive rightPositive

theorem IsRounded.neg {sign : UnpackedFloat.Sign} {size : ℚ} {number : Float}
    (rounded : IsRounded sign size number.toModel.unpack) :
    IsRounded (-sign) size (-number).toModel.unpack := by
  change IsRounded _ _ (Float.Model.pack number.toModel.unpack.neg).unpack
  generalize number.toModel.unpack = value at *
  cases rounded with
  | zero nearest => cases sign <;> exact .zero nearest
  | finite positive nearest fits =>
      dsimp only [UnpackedFloat.neg]
      rw [unpack_pack_of_isBinary64 nearest.form fits]
      exact .finite positive nearest fits
  | infinity nearest exceeds => cases sign <;> exact .infinity nearest exceeds

end Arithmetic

end Rounding

end MediaQuery
