import MediaQuery.Proofs.Number.Packing

/-!
# The number nearest to an amount

A number has a mantissa of 53 binary digits, or of fewer at the smallest exponent. No number lies
between two neighbours, so that an amount has one nearest number: of two that are equally near, the
one with the even mantissa. Exponents above the greatest one take part in this, and a nearest number
with such an exponent is held as infinity.
-/

namespace MediaQuery

namespace Rounding

open Float.Model (UnpackedFloat)

/-- What a mantissa and an exponent amount to. -/
def amount (mantissa : Nat) (exponent : Int) : ℚ :=
  mantissa * 2 ^ exponent

/--
Whether a mantissa and an exponent are those of the number nearest to an amount. Of two numbers
that are equally near, it is the one with the even mantissa.
-/
structure IsNearest (size : ℚ) (mantissa : Nat) (exponent : Int) : Prop where
  form : IsBinary64 mantissa exponent
  nearest : ∀ {other : Nat} {otherExponent : Int}, IsBinary64 other otherExponent →
    |amount mantissa exponent - size| ≤ |amount other otherExponent - size|
  even : ∀ {other : Nat} {otherExponent : Int}, IsBinary64 other otherExponent →
    amount other otherExponent ≠ amount mantissa exponent →
    |amount other otherExponent - size| = |amount mantissa exponent - size| → mantissa % 2 = 0

/--
How the number nearest to an amount is held, with a sign of its own. A number whose exponent would
be above the greatest is infinite.
-/
inductive IsRounded (sign : UnpackedFloat.Sign) (size : ℚ) : UnpackedFloat → Prop
  | zero (nearest : IsNearest size 0 (-1074)) : IsRounded sign size (.zero sign)
  | finite {mantissa : Nat} {exponent : Int} (positive : 0 < mantissa)
      (nearest : IsNearest size mantissa exponent) (fits : exponent ≤ greatestExponent) :
      IsRounded sign size (.finite sign mantissa exponent positive)
  | infinity {mantissa : Nat} {exponent : Int} (nearest : IsNearest size mantissa exponent)
      (exceeds : greatestExponent < exponent) : IsRounded sign size (.infinity sign)

section Amounts

variable {mantissa other : Nat} {exponent otherExponent : Int}

theorem unit_pos (exponent : Int) : (0 : ℚ) < 2 ^ exponent :=
  zpow_pos two_pos exponent

theorem amount_nonneg (mantissa : Nat) (exponent : Int) : 0 ≤ amount mantissa exponent :=
  mul_nonneg (Nat.cast_nonneg mantissa) (unit_pos exponent).le

@[simp]
theorem amount_zero (exponent : Int) : amount 0 exponent = 0 := by
  simp [amount]

theorem amount_mono (ordered : mantissa ≤ other) (exponent : Int) :
    amount mantissa exponent ≤ amount other exponent :=
  mul_le_mul_of_nonneg_right (Nat.cast_le.mpr ordered) (unit_pos exponent).le

theorem amount_strictMono (ordered : mantissa < other) (exponent : Int) :
    amount mantissa exponent < amount other exponent :=
  mul_lt_mul_of_pos_right (Nat.cast_lt.mpr ordered) (unit_pos exponent)

theorem amount_mono_exponent (mantissa : Nat) (ordered : exponent ≤ otherExponent) :
    amount mantissa exponent ≤ amount mantissa otherExponent :=
  mul_le_mul_of_nonneg_left (zpow_le_zpow_right₀ one_le_two ordered) (Nat.cast_nonneg mantissa)

theorem amount_mul_pow (mantissa : Nat) (exponent : Int) (steps : Nat) :
    amount (mantissa * Nat.pow 2 steps) exponent = amount mantissa (exponent + steps) := by
  unfold amount
  rw [zpow_add₀ two_ne_zero, zpow_natCast, Nat.pow_eq]
  push_cast
  ring

/-- A higher exponent makes a higher number, because the mantissa has its full length there. -/
theorem amount_lt_of_exponent_lt (form : IsBinary64 mantissa exponent)
    (otherForm : IsBinary64 other otherExponent) (lower : exponent < otherExponent) :
    amount mantissa exponent < amount other otherExponent := by
  have full : leadingBit ≤ other := by
    have least := form.least
    exact otherForm.full.resolve_right (by omega)
  have next : amount (leadingBit * Nat.pow 2 1) exponent = amount leadingBit (exponent + 1) :=
    amount_mul_pow leadingBit exponent 1
  calc amount mantissa exponent
      < amount (leadingBit * Nat.pow 2 1) exponent :=
        amount_strictMono (form.short.trans_eq (Nat.mul_comm 2 leadingBit)) exponent
    _ = amount leadingBit (exponent + 1) := next
    _ ≤ amount leadingBit otherExponent := amount_mono_exponent leadingBit lower
    _ ≤ amount other otherExponent := amount_mono full otherExponent

theorem IsBinary64.eq_of_amount_eq (form : IsBinary64 mantissa exponent)
    (otherForm : IsBinary64 other otherExponent)
    (same : amount mantissa exponent = amount other otherExponent) :
    mantissa = other ∧ exponent = otherExponent := by
  rcases Int.lt_trichotomy exponent otherExponent with lower | rfl | higher
  · exact absurd same (amount_lt_of_exponent_lt form otherForm lower).ne
  · refine ⟨?_, rfl⟩
    rcases Nat.lt_trichotomy mantissa other with less | same | more
    · exact absurd same (amount_strictMono less exponent).ne
    · exact same
    · exact absurd same (amount_strictMono more exponent).ne'
  · exact absurd same (amount_lt_of_exponent_lt otherForm form higher).ne'

/-- No number lies between two neighbours. -/
theorem amount_le_or_le (form : IsBinary64 mantissa exponent)
    (otherForm : IsBinary64 other otherExponent) :
    amount other otherExponent ≤ amount mantissa exponent ∨
      amount (mantissa + 1) exponent ≤ amount other otherExponent := by
  by_cases lower : otherExponent < exponent
  · exact Or.inl (amount_lt_of_exponent_lt otherForm form lower).le
  · -- A number with an exponent that is not lower counts whole units of the last digit.
    have units : otherExponent = exponent + (otherExponent - exponent).toNat := by omega
    rw [units, ← amount_mul_pow]
    rcases Nat.lt_or_ge mantissa (other * Nat.pow 2 (otherExponent - exponent).toNat) with
      above | notAbove
    · exact Or.inr (amount_mono above exponent)
    · exact Or.inl (amount_mono notAbove exponent)

/-- The next number above one has the next mantissa, or the first one of the next exponent. -/
theorem IsBinary64.exists_of_le (form : IsBinary64 mantissa exponent)
    (ordered : other = mantissa ∨ other = mantissa + 1) :
    (other < 2 * leadingBit ∧ IsBinary64 other exponent) ∨
      (other = leadingBit * Nat.pow 2 1 ∧ IsBinary64 leadingBit (exponent + 1)) := by
  have short := form.short
  have least := form.least
  have doubled : leadingBit * Nat.pow 2 1 = 2 * leadingBit := Nat.mul_comm _ 2
  have leading : 0 < leadingBit := by decide
  by_cases carry : other = 2 * leadingBit
  · exact Or.inr ⟨carry.trans doubled.symm, ⟨by omega, by omega, Or.inl le_rfl⟩⟩
  · have shorter : other < 2 * leadingBit := by omega
    exact Or.inl ⟨shorter, shorter, least, form.full.imp (fun full => by omega) id⟩

end Amounts

section Uniqueness

variable {size : ℚ} {mantissa other : Nat} {exponent otherExponent : Int}

/-- An amount is not beyond the middle between its nearest number and one above that. -/
theorem IsNearest.two_mul_le (nearest : IsNearest size mantissa exponent)
    (form : IsBinary64 other otherExponent)
    (above : amount mantissa exponent < amount other otherExponent) :
    2 * size ≤ amount mantissa exponent + amount other otherExponent := by
  by_contra beyond
  have nearer : |amount other otherExponent - size| < size - amount mantissa exponent := by
    rw [abs_lt]
    constructor <;> linarith
  have distance := neg_le_abs (amount mantissa exponent - size)
  have close := nearest.nearest form
  linarith

theorem IsNearest.le_two_mul (nearest : IsNearest size mantissa exponent)
    (form : IsBinary64 other otherExponent)
    (below : amount other otherExponent < amount mantissa exponent) :
    amount mantissa exponent + amount other otherExponent ≤ 2 * size := by
  by_contra beyond
  have nearer : |amount other otherExponent - size| < amount mantissa exponent - size := by
    rw [abs_lt]
    constructor <;> linarith
  have distance := le_abs_self (amount mantissa exponent - size)
  have close := nearest.nearest form
  linarith

/-- Two numbers that are nearest to one amount cannot be neighbours, as both would be even. -/
theorem IsNearest.not_lt (left : IsNearest size mantissa exponent)
    (right : IsNearest size other otherExponent) :
    ¬ amount mantissa exponent < amount other otherExponent := by
  intro ordered
  have equallyFar : |amount mantissa exponent - size| = |amount other otherExponent - size| :=
    le_antisymm (left.nearest right.form) (right.nearest left.form)
  have even := left.even right.form ordered.ne' equallyFar.symm
  have otherEven := right.even left.form ordered.ne equallyFar
  have between : amount (mantissa + 1) exponent ≤ amount other otherExponent :=
    (amount_le_or_le left.form right.form).resolve_left ordered.not_ge
  rcases left.form.exists_of_le (Or.inr rfl) with ⟨_, nextForm⟩ | ⟨carry, _⟩
  · -- The amount is in the middle between the two, so that no other number is between them.
    have middle := right.le_two_mul left.form ordered
    have side := left.two_mul_le nextForm (amount_strictMono (Nat.lt_succ_self mantissa) exponent)
    have last : amount (mantissa + 1) exponent = amount other otherExponent :=
      le_antisymm between (by linarith)
    have neighbour := (nextForm.eq_of_amount_eq right.form last).1
    omega
  · have doubled : leadingBit * Nat.pow 2 1 = 2 * leadingBit := Nat.mul_comm _ 2
    omega

/-- An amount has one nearest number at most. -/
theorem IsNearest.unique (left : IsNearest size mantissa exponent)
    (right : IsNearest size other otherExponent) :
    mantissa = other ∧ exponent = otherExponent :=
  left.form.eq_of_amount_eq right.form
    (le_antisymm (le_of_not_gt (right.not_lt left)) (le_of_not_gt (left.not_lt right)))

/-- A number that an amount reaches is also reached by the nearest number. -/
theorem IsNearest.le (nearest : IsNearest size mantissa exponent)
    (form : IsBinary64 other otherExponent) (below : amount other otherExponent ≤ size) :
    amount other otherExponent ≤ amount mantissa exponent := by
  by_contra lower
  have middle := nearest.two_mul_le form (not_le.mp lower)
  linarith

theorem IsNearest.ge (nearest : IsNearest size mantissa exponent)
    (form : IsBinary64 other otherExponent) (above : size ≤ amount other otherExponent) :
    amount mantissa exponent ≤ amount other otherExponent := by
  by_contra higher
  have middle := nearest.le_two_mul form (not_le.mp higher)
  linarith

/-- With a sign, the number nearest to an amount is held in one way. -/
theorem IsRounded.unique {sign : UnpackedFloat.Sign} {first second : UnpackedFloat}
    (left : IsRounded sign size first) (right : IsRounded sign size second) : first = second := by
  cases left with
  | zero nearest =>
      cases right with
      | zero => rfl
      | finite positive otherNearest => exact absurd (nearest.unique otherNearest).1 positive.ne
      | infinity otherNearest exceeds =>
          rw [← (nearest.unique otherNearest).2] at exceeds
          exact absurd exceeds (by decide)
  | finite positive nearest fits =>
      cases right with
      | zero otherNearest => exact absurd (nearest.unique otherNearest).1 positive.ne'
      | finite _ otherNearest =>
          rcases nearest.unique otherNearest with ⟨rfl, rfl⟩
          rfl
      | infinity otherNearest exceeds =>
          rw [← (nearest.unique otherNearest).2] at exceeds
          exact absurd fits exceeds.not_ge
  | infinity nearest exceeds =>
      cases right with
      | zero otherNearest =>
          rw [(nearest.unique otherNearest).2] at exceeds
          exact absurd exceeds (by decide)
      | finite _ otherNearest fits =>
          rw [(nearest.unique otherNearest).2] at exceeds
          exact absurd fits exceeds.not_ge
      | infinity => rfl

end Uniqueness

end Rounding

end MediaQuery
