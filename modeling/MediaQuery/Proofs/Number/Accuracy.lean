import MediaQuery.Proofs.Number.Value

/-!
# How far a number is from an amount

The number nearest to an amount misses it by half of its last digit at most. That is a small part
of the amount, the same for all numbers with a mantissa of full length, and it is half of the least
number for the others. What several roundings miss adds up.
-/

namespace MediaQuery

namespace Rounding

open Float.Model (UnpackedFloat)

/-- The part of an amount that one rounding keeps at least. -/
def keptPart : ℚ :=
  1 - 1 / 2 ^ 53

/-- Whether two amounts differ by no more than what some roundings may add or take away. -/
structure Near (roundings : Nat) (exact held : ℚ) : Prop where
  lower : exact * keptPart ^ roundings ≤ held
  upper : held * keptPart ^ roundings ≤ exact

section Parts

variable {first second : Nat} {exact middle held otherExact otherHeld : ℚ}

theorem keptPart_pos : 0 < keptPart := by
  norm_num [keptPart]

theorem Near.refl (nonneg : 0 ≤ exact) (roundings : Nat) : Near roundings exact exact := by
  have part : keptPart ^ roundings ≤ 1 :=
    pow_le_one₀ keptPart_pos.le (by norm_num [keptPart])
  exact ⟨mul_le_of_le_one_right nonneg part, mul_le_of_le_one_right nonneg part⟩

theorem Near.trans (left : Near first exact middle) (right : Near second middle held) :
    Near (first + second) exact held := by
  have firstPart := pow_pos keptPart_pos first
  have secondPart := pow_pos keptPart_pos second
  constructor
  · calc exact * keptPart ^ (first + second)
        = exact * keptPart ^ first * keptPart ^ second := by rw [pow_add, mul_assoc]
      _ ≤ middle * keptPart ^ second := mul_le_mul_of_nonneg_right left.lower secondPart.le
      _ ≤ held := right.lower
  · calc held * keptPart ^ (first + second)
        = held * keptPart ^ second * keptPart ^ first := by
          rw [pow_add, mul_assoc, mul_comm (_ ^ second)]
      _ ≤ middle * keptPart ^ first := mul_le_mul_of_nonneg_right right.upper firstPart.le
      _ ≤ exact := left.upper

theorem Near.mul (left : Near first exact held) (right : Near second otherExact otherHeld)
    (exactNonneg : 0 ≤ exact) (heldNonneg : 0 ≤ held) (otherExactNonneg : 0 ≤ otherExact)
    (otherHeldNonneg : 0 ≤ otherHeld) :
    Near (first + second) (exact * otherExact) (held * otherHeld) := by
  have secondPart := (pow_pos keptPart_pos second).le
  constructor
  · rw [pow_add, mul_mul_mul_comm]
    exact mul_le_mul left.lower right.lower (mul_nonneg otherExactNonneg secondPart) heldNonneg
  · rw [pow_add, mul_mul_mul_comm]
    exact mul_le_mul left.upper right.upper (mul_nonneg otherHeldNonneg secondPart) exactNonneg

theorem Near.inv (near : Near first exact held) (exactPos : 0 < exact) (heldPos : 0 < held) :
    Near first exact⁻¹ held⁻¹ := by
  constructor
  · rw [inv_mul_le_iff₀ exactPos, ← div_eq_mul_inv, le_div_iff₀ heldPos, mul_comm]
    exact near.upper
  · rw [inv_mul_le_iff₀ heldPos, ← div_eq_mul_inv, le_div_iff₀ exactPos, mul_comm]
    exact near.lower

theorem Near.div (left : Near first exact held) (right : Near second otherExact otherHeld)
    (exactNonneg : 0 ≤ exact) (heldNonneg : 0 ≤ held) (otherExactPos : 0 < otherExact)
    (otherHeldPos : 0 < otherHeld) :
    Near (first + second) (exact / otherExact) (held / otherHeld) := by
  rw [div_eq_mul_inv, div_eq_mul_inv]
  exact left.mul (right.inv otherExactPos otherHeldPos) exactNonneg heldNonneg
    (inv_pos.mpr otherExactPos).le (inv_pos.mpr otherHeldPos).le

/-- A few roundings miss an amount by a small part of it. -/
theorem Near.abs_sub_le (near : Near first exact held) (few : first ≤ 16) (nonneg : 0 ≤ exact) :
    |held - exact| ≤ exact * (first / 2 ^ 52) := by
  have kept : 1 - (first : ℚ) / 2 ^ 53 ≤ keptPart ^ first := by
    have bernoulli := one_add_mul_le_pow (a := -(1 / 2 ^ 53 : ℚ)) (by norm_num) first
    rw [mul_neg, ← sub_eq_add_neg, ← sub_eq_add_neg, mul_one_div] at bernoulli
    exact bernoulli
  have small : (first : ℚ) / 2 ^ 53 ≤ 1 / 2 := by
    have most : (first : ℚ) ≤ 16 := by exact_mod_cast few
    rw [div_le_div_iff₀ (by norm_num) (by norm_num)]
    linarith
  have double : (first : ℚ) / 2 ^ 52 = 2 * (first / 2 ^ 53) := by ring
  have lost : (0 : ℚ) ≤ first / 2 ^ 53 := by positivity
  have heldNonneg : 0 ≤ held :=
    (mul_nonneg nonneg (pow_pos keptPart_pos first).le).trans near.lower
  have lower := (mul_le_mul_of_nonneg_left kept nonneg).trans near.lower
  have upper := (mul_le_mul_of_nonneg_left kept heldNonneg).trans near.upper
  rw [double]
  generalize (first : ℚ) / 2 ^ 53 = part at *
  have halfHeld : held * part ≤ held * (1 / 2) := mul_le_mul_of_nonneg_left small heldNonneg
  have doubled : held * part ≤ 2 * exact * part :=
    mul_le_mul_of_nonneg_right (by linarith) lost
  have missed : 0 ≤ exact * part := mul_nonneg nonneg lost
  rw [abs_sub_le_iff]
  constructor <;> linarith

/-- What is held exceeds an amount by less than a quarter of it. -/
theorem Near.le (near : Near first exact held) (few : first ≤ 16) (nonneg : 0 ≤ exact) :
    held ≤ exact * (5 / 4) := by
  have part : (first : ℚ) / 2 ^ 52 ≤ 1 / 4 := by
    have most : (first : ℚ) ≤ 16 := by exact_mod_cast few
    rw [div_le_div_iff₀ (by norm_num) (by norm_num)]
    linarith
  have missed := (le_abs_self _).trans (near.abs_sub_le few nonneg)
  have share := mul_le_mul_of_nonneg_left part nonneg
  linarith

end Parts

section Nearest

variable {size : ℚ} {mantissa : Nat} {exponent : Int}

/-- The number below a positive one is not further away than the one above it. -/
theorem IsBinary64.exists_below (form : IsBinary64 mantissa exponent) (positive : 0 < mantissa) :
    ∃ other otherExponent, IsBinary64 other otherExponent ∧
      amount mantissa exponent - 2 ^ exponent ≤ amount other otherExponent ∧
        amount other otherExponent < amount mantissa exponent := by
  have short := form.short
  have least := form.least
  have previous : amount (mantissa - 1) exponent = amount mantissa exponent - 2 ^ exponent := by
    rw [amount, amount, Nat.cast_sub positive, Nat.cast_one, sub_mul, one_mul]
  by_cases carry : mantissa = leadingBit ∧ exponent ≠ -1074
  · rcases carry with ⟨rfl, notLeast⟩
    have doubled : amount (leadingBit * Nat.pow 2 1) (exponent - 1) =
        amount leadingBit exponent := by
      rw [amount_mul_pow, Nat.cast_one, Int.sub_add_cancel]
    have unit : (2 : ℚ) ^ (exponent - 1) ≤ 2 ^ exponent :=
      zpow_le_zpow_right₀ one_le_two (by omega)
    have below : amount (leadingBit * Nat.pow 2 1 - 1) (exponent - 1) =
        amount leadingBit exponent - 2 ^ (exponent - 1) := by
      rw [← doubled, amount, amount, Nat.cast_sub (by decide), Nat.cast_one, sub_mul, one_mul]
    refine ⟨leadingBit * Nat.pow 2 1 - 1, exponent - 1, ⟨by decide, by omega, Or.inl (by decide)⟩,
      ?_, ?_⟩
    · linarith
    · have some := unit_pos (exponent - 1)
      linarith
  · refine ⟨mantissa - 1, exponent, ⟨by omega, least, ?_⟩, previous.ge, ?_⟩
    · rcases form.full with full | smallest
      · by_cases smallest : exponent = -1074
        · exact Or.inr smallest
        · have longer : mantissa ≠ leadingBit := fun same => carry ⟨same, smallest⟩
          exact Or.inl (by omega)
      · exact Or.inr smallest
    · have unit := unit_pos exponent
      linarith

/-- The number above another one is higher by what the last digit counts. -/
theorem IsBinary64.exists_above (form : IsBinary64 mantissa exponent) :
    ∃ other otherExponent, IsBinary64 other otherExponent ∧
      amount other otherExponent = amount mantissa exponent + 2 ^ exponent := by
  have sum : amount (mantissa + 1) exponent = amount mantissa exponent + 2 ^ exponent := by
    rw [amount, amount, Nat.cast_succ, add_mul, one_mul]
  rcases form.exists_of_le (Or.inr rfl) with ⟨_, next⟩ | ⟨carry, next⟩
  · exact ⟨_, _, next, sum⟩
  · refine ⟨_, _, next, ?_⟩
    rw [← sum, carry]
    exact (amount_mul_pow leadingBit exponent 1).symm

/-- The nearest number misses an amount by half of what its last digit counts at most. -/
theorem IsNearest.abs_sub_le (nearest : IsNearest size mantissa exponent) (nonneg : 0 ≤ size) :
    |amount mantissa exponent - size| ≤ 2 ^ exponent / 2 := by
  have unit := unit_pos exponent
  rcases nearest.form.exists_above with ⟨other, otherExponent, form, above⟩
  have upper := nearest.two_mul_le form (by linarith)
  have lower : amount mantissa exponent - size ≤ 2 ^ exponent / 2 := by
    rcases Nat.eq_zero_or_pos mantissa with rfl | positive
    · rw [amount_zero]
      linarith
    · rcases nearest.form.exists_below positive with ⟨other, otherExponent, form, close, below⟩
      have middle := nearest.le_two_mul form below
      linarith
  rw [abs_sub_le_iff]
  constructor <;> linarith

theorem IsNearest.near_of_full (nearest : IsNearest size mantissa exponent) (nonneg : 0 ≤ size)
    (full : leadingBit ≤ mantissa) : Near 1 size (amount mantissa exponent) := by
  have close := nearest.abs_sub_le nonneg
  have long : 2 ^ 52 * 2 ^ exponent ≤ amount mantissa exponent := by
    have leading : (2 : ℚ) ^ 52 ≤ mantissa := by exact_mod_cast full
    exact mul_le_mul_of_nonneg_right leading (unit_pos exponent).le
  have small : (2 : ℚ) ^ exponent / 2 ≤ amount mantissa exponent * (1 / 2 ^ 53) := by
    linarith
  have atMost : size ≤ amount mantissa exponent * (1 + 1 / 2 ^ 53) := by
    have distance := neg_le_abs (amount mantissa exponent - size)
    linarith
  constructor
  · have nonneg := amount_nonneg mantissa exponent
    have part := mul_le_mul_of_nonneg_right atMost keptPart_pos.le
    have square : amount mantissa exponent * (1 + 1 / 2 ^ 53) * keptPart =
        amount mantissa exponent - amount mantissa exponent * (1 / 2 ^ 106) := by
      rw [keptPart]
      ring
    rw [pow_one]
    linarith
  · have distance := le_abs_self (amount mantissa exponent - size)
    rw [pow_one, keptPart]
    linarith

/--
The nearest number misses an amount by no more than one rounding may, or by half of the least
positive number at most.
-/
theorem IsNearest.near_or (nearest : IsNearest size mantissa exponent) (nonneg : 0 ≤ size) :
    Near 1 size (amount mantissa exponent) ∨ |amount mantissa exponent - size| ≤ halfLeast := by
  rcases nearest.form.full with full | rfl
  · exact Or.inl (nearest.near_of_full nonneg full)
  · exact Or.inr (nearest.abs_sub_le nonneg)

theorem form_one : IsBinary64 leadingBit (-52) ∧ amount leadingBit (-52) = 1 := by
  refine ⟨⟨by decide, by decide, Or.inl le_rfl⟩, ?_⟩
  have leading : (leadingBit : ℚ) = 2 ^ (52 : Int) := by norm_num [leadingBit]
  rw [amount, leading, ← zpow_add₀ two_ne_zero]
  rfl

theorem IsNearest.one_le (nearest : IsNearest size mantissa exponent) (large : 1 ≤ size) :
    1 ≤ amount mantissa exponent := by
  rw [← form_one.2] at large ⊢
  exact nearest.le form_one.1 large

/-- An amount that is not between zero and one is not missed by more than one rounding may. -/
theorem IsNearest.near (nearest : IsNearest size mantissa exponent)
    (large : size = 0 ∨ 1 ≤ size) : Near 1 size (amount mantissa exponent) := by
  rcases large with rfl | large
  · rw [(nearest.unique isNearest_zero).1, amount_zero]
    exact Near.refl le_rfl 1
  · have reached := nearest.one_le large
    have high : -52 ≤ exponent := by
      by_contra lower
      have less := amount_lt_of_exponent_lt nearest.form form_one.1 (by omega)
      rw [form_one.2] at less
      exact absurd reached less.not_ge
    have full := nearest.form.full.resolve_right (by omega)
    exact nearest.near_of_full (zero_le_one.trans large) full

end Nearest

section Held

variable {sign : UnpackedFloat.Sign} {size : ℚ} {value : UnpackedFloat}

/-- Whether a value is that of an amount, but for a 2^49th part of it or twice the least number. -/
def IsClose (sign : UnpackedFloat.Sign) (size : ℚ) (value : UnpackedFloat) : Prop :=
  ∃ held, HasSize sign held value ∧ |held - size| ≤ size / 2 ^ 49 + 4 * halfLeast

/-- What is finite has the amount of the nearest number. -/
theorem IsRounded.exists_hasSize (rounded : IsRounded sign size value)
    (finite : value.isInf = false) :
    ∃ mantissa exponent, IsNearest size mantissa exponent ∧
      HasSize sign (amount mantissa exponent) value := by
  cases rounded with
  | zero nearest =>
      refine ⟨_, _, nearest, ?_⟩
      rw [amount_zero]
      exact .zero
  | finite positive nearest => exact ⟨_, _, nearest, .finite positive⟩
  | infinity => cases finite

/-- A finite value that is no fraction is as near as one rounding allows. -/
theorem IsRounded.exists_near (rounded : IsRounded sign size value)
    (finite : value.isInf = false) (large : size = 0 ∨ 1 ≤ size) :
    ∃ held, HasSize sign held value ∧ Near 1 size held ∧ (held = 0 ∨ 1 ≤ held) := by
  rcases rounded.exists_hasSize finite with ⟨mantissa, exponent, nearest, has⟩
  refine ⟨_, has, nearest.near large, ?_⟩
  rcases large with rfl | large
  · left
    rw [(nearest.unique isNearest_zero).1, amount_zero]
  · exact Or.inr (nearest.one_le large)

theorem halfLeast_pos : 0 < halfLeast :=
  half_pos (unit_pos _)

/-- A finite value misses the amount by a small part of it, or by half of the least number. -/
theorem IsRounded.exists_abs_sub_le (rounded : IsRounded sign size value)
    (finite : value.isInf = false) (nonneg : 0 ≤ size) :
    ∃ held, HasSize sign held value ∧ 0 ≤ held ∧
      |held - size| ≤ size * (1 / 2 ^ 52) + halfLeast := by
  rcases rounded.exists_hasSize finite with ⟨mantissa, exponent, nearest, has⟩
  refine ⟨_, has, amount_nonneg _ _, ?_⟩
  have least := halfLeast_pos
  rcases nearest.near_or nonneg with near | small
  · have few := near.abs_sub_le (by decide) nonneg
    rw [Nat.cast_one] at few
    linarith
  · have part : 0 ≤ size * (1 / 2 ^ 52) := by positivity
    linarith

/-- The negated number has the same amount. -/
theorem HasSize.neg {number : Float} (has : HasSize sign size number.toModel.unpack) :
    HasSize (-sign) size (-number).toModel.unpack := by
  change HasSize _ _ (Float.Model.pack number.toModel.unpack.neg).unpack
  generalize unpacked : number.toModel.unpack = value at *
  cases has with
  | zero => cases sign <;> exact .zero
  | finite positive =>
      dsimp only [UnpackedFloat.neg]
      rw [unpack_pack_of_isBinary64 (isBinary64_of_unpack unpacked)
        (exponent_le_of_unpack unpacked)]
      exact .finite positive

theorem IsClose.neg {number : Float} (close : IsClose sign size number.toModel.unpack) :
    IsClose (-sign) size (-number).toModel.unpack := by
  rcases close with ⟨held, has, missed⟩
  exact ⟨held, has.neg, missed⟩

end Held

end Rounding

end MediaQuery
