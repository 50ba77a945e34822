import MediaQuery.Proofs.Json.Number
import MediaQuery.Proofs.Json.Token
import MediaQuery.Proofs.Number.Accuracy
import MediaQuery.Proofs.Number.Power

/-!
# How close a number of a JSON text is

The digits beyond those that 64 bits hold are left out, and the others are scaled in steps of which
each is rounded. All of this together misses the amount that is written by a small part of it, so
that a number is held close to what is written however many digits it has.
-/

namespace MediaQuery

open Rounding (Near HasSize IsClose IsRounded halfLeast)

namespace ScaledDigits

variable {significand : Nat} {digits : List Nat}

/-- Digits behind a significand change it by less than one of its units. -/
theorem extend_bounds (decimal : ∀ digit ∈ digits, digit < 10) :
    significand * 10 ^ digits.length ≤ extend significand digits ∧
      extend significand digits + 1 ≤ (significand + 1) * 10 ^ digits.length := by
  induction digits generalizing significand with
  | nil => simp [extend]
  | cons digit rest ih =>
      rcases List.forall_mem_cons.mp decimal with ⟨small, decimal⟩
      have bounds := @ih (significand * 10 + digit) decimal
      have next : extend significand (digit :: rest) = extend (significand * 10 + digit) rest := rfl
      have power : 10 ^ (digit :: rest).length = 10 * 10 ^ rest.length := pow_succ' 10 rest.length
      rw [next, power, ← Nat.mul_assoc, ← Nat.mul_assoc]
      constructor
      · exact (Nat.mul_le_mul_right _ (by omega)).trans bounds.1
      · exact bounds.2.trans (Nat.mul_le_mul_right _ (by omega))

/-- Where decimal digits are left, the significand has become long. -/
theorem Takes.long {taken rest : List Nat} (takes : Takes significand digits taken rest)
    (decimal : ∀ digit ∈ digits, digit < 10) (left : rest ≠ []) :
    10 ^ 18 ≤ extend significand taken := by
  cases rest with
  | nil => exact absurd rfl left
  | cons digit rest =>
      have small : digit < 10 := decimal digit (by rw [takes.parts]; simp)
      have exceeds : UInt64.size ≤ extend significand taken * 10 + digit :=
        Nat.le_of_not_lt (of_decide_eq_false (takes.stops digit rfl))
      have size : UInt64.size = 18446744073709551616 := rfl
      omega

theorem scaled_bounds (decimal : ∀ digit ∈ digits, digit < 10) (exponent : Int) :
    (significand : ℚ) * 10 ^ exponent ≤
        extend significand digits * 10 ^ (exponent - digits.length) ∧
      (extend significand digits : ℚ) * 10 ^ (exponent - digits.length) ≤
        (significand + 1) * 10 ^ exponent := by
  have bounds := @extend_bounds significand _ decimal
  have scale : (0 : ℚ) < 10 ^ (exponent - digits.length) := zpow_pos (by norm_num) _
  have power : (10 : ℚ) ^ exponent = 10 ^ digits.length * 10 ^ (exponent - digits.length) := by
    rw [← zpow_natCast, ← zpow_add₀ (by norm_num)]
    congr 1
    omega
  have lower : (significand : ℚ) * 10 ^ digits.length ≤ extend significand digits := by
    exact_mod_cast bounds.1
  have upper : (extend significand digits : ℚ) ≤ (significand + 1) * 10 ^ digits.length := by
    exact_mod_cast (Nat.le_of_succ_le bounds.2)
  rw [power, ← mul_assoc, ← mul_assoc]
  exact ⟨mul_le_mul_of_nonneg_right lower scale.le, mul_le_mul_of_nonneg_right upper scale.le⟩

/-- Two amounts with the same 18 digits in front are close to each other. -/
theorem near_of_same_front {front unit left right : ℚ} (long : 10 ^ 18 ≤ front)
    (positive : 0 < unit) (leftBounds : front * unit ≤ left ∧ left ≤ (front + 1) * unit)
    (rightBounds : front * unit ≤ right ∧ right ≤ (front + 1) * unit) : Near 1 left right := by
  have kept : (front + 1) * unit * Rounding.keptPart ≤ front * unit := by
    have part : (front + 1) * Rounding.keptPart ≤ front := by
      rw [Rounding.keptPart]
      linarith
    calc (front + 1) * unit * Rounding.keptPart = (front + 1) * Rounding.keptPart * unit := by ring
      _ ≤ front * unit := mul_le_mul_of_nonneg_right part positive.le
  have nonneg := Rounding.keptPart_pos.le
  constructor
  · rw [pow_one]
    exact (mul_le_mul_of_nonneg_right leftBounds.2 nonneg).trans (kept.trans rightBounds.1)
  · rw [pow_one]
    exact (mul_le_mul_of_nonneg_right rightBounds.2 nonneg).trans (kept.trans leftBounds.1)

section Taken

variable {whole fraction taken left places others : List Nat}

/-- Where all whole digits are taken, those of the fraction are cut off behind the ones taken. -/
theorem near_of_fraction_left (takes : Takes (extend 0 whole) fraction places others)
    (decimal : ∀ digit ∈ fraction, digit < 10) (scale : Int) :
    Near 1 (extend 0 (whole ++ fraction) * 10 ^ (scale - fraction.length))
      (extend (extend 0 whole) places * 10 ^ (scale - places.length)) := by
  have all : extend 0 (whole ++ fraction) = extend (extend (extend 0 whole) places) others := by
    rw [takes.parts, extend_append, extend_append]
  have place : scale - (fraction.length : Int) = scale - places.length - others.length := by
    rw [takes.parts, List.length_append, Nat.cast_add, sub_sub]
  have decimalOthers : ∀ digit ∈ others, digit < 10 := fun digit member =>
    decimal digit (by rw [takes.parts]; exact List.mem_append_right _ member)
  have bounds := @scaled_bounds (extend (extend 0 whole) places) others decimalOthers
    (scale - places.length)
  rw [all, place]
  by_cases noOthers : others = []
  · rw [noOthers, List.length_nil, Nat.cast_zero, sub_zero]
    exact Near.refl (by positivity) 1
  · have long := takes.long decimal noOthers
    have unit : (0 : ℚ) < 10 ^ (scale - places.length) := zpow_pos (by norm_num) _
    exact near_of_same_front (by exact_mod_cast long) unit bounds ⟨le_rfl, by linarith⟩

/-- Where a whole digit is left, all digits behind the ones taken count little. -/
theorem near_of_whole_left (takesWhole : Takes 0 whole taken left)
    (takesPlaces : Takes (extend 0 taken) fraction places others)
    (decimal : ∀ digit ∈ whole ++ fraction, digit < 10) (someLeft : left ≠ []) (scale : Int) :
    Near 1 (extend 0 (whole ++ fraction) * 10 ^ (scale - fraction.length))
      (extend (extend 0 taken) places * 10 ^ (scale + left.length - places.length)) := by
  rcases List.forall_mem_append.mp decimal with ⟨decimalWhole, decimalFraction⟩
  have long := takesWhole.long decimalWhole someLeft
  have all : extend 0 (whole ++ fraction) = extend (extend 0 taken) (left ++ fraction) := by
    rw [← extend_append, ← List.append_assoc, ← takesWhole.parts]
  have place : scale - (fraction.length : Int) =
      scale + left.length - (left ++ fraction).length := by
    rw [List.length_append]
    push_cast
    ring
  have decimalLeft : ∀ digit ∈ left ++ fraction, digit < 10 := by
    rw [takesWhole.parts, List.append_assoc] at decimal
    exact (List.forall_mem_append.mp decimal).2
  have decimalPlaces : ∀ digit ∈ places, digit < 10 := by
    rw [takesPlaces.parts] at decimalFraction
    exact (List.forall_mem_append.mp decimalFraction).1
  rw [all, place]
  exact near_of_same_front (by exact_mod_cast long) (zpow_pos (by norm_num) (scale + left.length))
    (scaled_bounds decimalLeft _) (scaled_bounds decimalPlaces _)

end Taken

/-- The amount of the leading digits is close to that of all digits. -/
theorem near_ofNumeral {numeral : Numeral}
    (decimal : ∀ digit ∈ numeral.whole ++ numeral.fraction, digit < 10) :
    Near 1 numeral.size
      ((ofNumeral numeral).significand * 10 ^ (ofNumeral numeral).exponent) := by
  rcases exists_ofNumeral_eq numeral with
    ⟨whole, left, places, others, takesWhole, takesPlaces, taken⟩
  rw [taken, Numeral.size_eq]
  by_cases noneLeft : left = []
  · have same := takesWhole.parts
    rw [noneLeft, List.append_nil] at same
    rw [← same] at takesPlaces ⊢
    rw [noneLeft, List.length_nil, Nat.cast_zero, add_zero]
    exact near_of_fraction_left takesPlaces (List.forall_mem_append.mp decimal).2 _
  · exact near_of_whole_left takesWhole takesPlaces decimal noneLeft _

variable {significand places : Nat} {size : ℚ} {value : Float}

/-- A significand of 64 bits is held as near as one rounding allows. -/
theorem exists_hasSize_ofNat (fits : significand < UInt64.size) :
    ∃ number, HasSize .positive number (Float.ofNat significand).toModel.unpack ∧
      Near 1 significand number ∧ (number = 0 ∨ 1 ≤ number) := by
  have rounded := Rounding.isRounded_ofNat significand
  refine rounded.exists_near (rounded.isInf ?_) ?_
  · calc (significand : ℚ) ≤ 2 ^ 64 := by exact_mod_cast fits.le
      _ ≤ Rounding.greatest := Rounding.pow_le_greatest (by decide)
  · rcases Nat.eq_zero_or_pos significand with zero | positive
    · exact Or.inl (Nat.cast_eq_zero.mpr zero)
    · exact Or.inr (Nat.one_le_cast.mpr positive)

/-- A power of ten that is not beyond the finite numbers is held as near as one rounding allows. -/
theorem exists_hasSize_powerOfTen (few : places ≤ 308) :
    ∃ power, HasSize .positive power (Rounding.powerOfTen places).toModel.unpack ∧
      Near 1 (10 ^ places) power ∧ 1 ≤ power := by
  have rounded := Rounding.isRounded_powerOfTen places
  rw [zpow_natCast] at rounded
  have ordinary := @Rounding.isOrdinary_powerOfTen places (by omega) (by omega)
  have large : (1 : ℚ) ≤ 10 ^ places := one_le_pow₀ (by norm_num)
  rcases rounded.exists_near ((Rounding.isFinite_iff _).mp ordinary.isFinite).2 (Or.inr large) with
    ⟨power, has, near, zero | positive⟩
  · have lower := near.lower
    have kept := mul_pos (lt_of_lt_of_le one_pos large) (pow_pos Rounding.keptPart_pos 1)
    linarith
  · exact ⟨power, has, near, positive⟩

theorem nonneg_of_large {number : ℚ} (large : number = 0 ∨ 1 ≤ number) : 0 ≤ number :=
  large.elim (fun zero => zero.ge) fun positive => zero_le_one.trans positive

theorem isClose_of_near {held : ℚ} {roundings : Nat} (near : Near roundings size held)
    (few : roundings ≤ 8) (nonneg : 0 ≤ size) (has : HasSize .positive held value.toModel.unpack) :
    IsClose .positive size value.toModel.unpack := by
  have missed := near.abs_sub_le (by omega) nonneg
  have part : (roundings : ℚ) / 2 ^ 52 ≤ 1 / 2 ^ 49 := by
    have most : (roundings : ℚ) ≤ 8 := by exact_mod_cast few
    rw [div_le_div_iff₀ (by norm_num) (by norm_num)]
    linarith
  have share := mul_le_mul_of_nonneg_left part nonneg
  have least := Rounding.halfLeast_pos
  refine ⟨held, has, ?_⟩
  rw [← mul_one_div size]
  linarith

/-- The factors that are held for a product with a power of ten make about that product. -/
theorem exists_product (fits : significand < UInt64.size) (few : places ≤ 308) :
    ∃ product, Near 2 (significand * 10 ^ places) product ∧ (product = 0 ∨ 1 ≤ product) ∧
      IsRounded .positive product
        (Float.ofNat significand * Rounding.powerOfTen places).toModel.unpack := by
  rcases exists_hasSize_ofNat fits with ⟨number, hasNumber, nearNumber, large⟩
  rcases exists_hasSize_powerOfTen few with ⟨power, hasPower, nearPower, atLeastOne⟩
  refine ⟨number * power, ?_, ?_, hasNumber.mul hasPower⟩
  · exact nearNumber.mul nearPower (Nat.cast_nonneg _) (nonneg_of_large large) (by positivity)
      (zero_le_one.trans atLeastOne)
  · rcases large with rfl | large
    · exact Or.inl (zero_mul power)
    · exact Or.inr (one_le_mul_of_one_le_of_one_le large atLeastOne)

/-- A product with a power of ten is close to what it stands for, if it is finite. -/
theorem isClose_mul (fits : significand < UInt64.size) (few : places ≤ 308)
    (near : Near 1 size (significand * 10 ^ places)) (nonneg : 0 ≤ size)
    (finite : (Float.ofNat significand * Rounding.powerOfTen places).isInf = false) :
    IsClose .positive size
      (Float.ofNat significand * Rounding.powerOfTen places).toModel.unpack := by
  rcases exists_product fits few with ⟨product, nearProduct, large, rounded⟩
  rcases rounded.exists_near finite large with ⟨held, has, nearHeld, _⟩
  exact isClose_of_near ((near.trans nearProduct).trans nearHeld) (by decide) nonneg has

/-- A quotient is held but for a small part of it and half of the least number, if it is finite. -/
theorem exists_hasSize_div {left right : Float} {number power : ℚ}
    (hasNumber : HasSize .positive number left.toModel.unpack)
    (hasPower : HasSize .positive power right.toModel.unpack) (nonneg : 0 ≤ number)
    (bounded : number ≤ Rounding.greatest) (atLeastOne : 1 ≤ power) :
    ∃ held, HasSize .positive held (left / right).toModel.unpack ∧ 0 ≤ held ∧
      |held - number / power| ≤ number / power * (1 / 2 ^ 52) + halfLeast := by
  have positive : 0 < power := lt_of_lt_of_le one_pos atLeastOne
  have rounded := hasNumber.div hasPower positive.ne'
  have smaller : number / power ≤ number := div_le_self nonneg atLeastOne
  exact rounded.exists_abs_sub_le (rounded.isInf (smaller.trans bounded))
    (div_nonneg nonneg positive.le)

/-- The operands that are held for a quotient by a power of ten make about that quotient. -/
theorem exists_quotient (fits : significand < UInt64.size) (few : places ≤ 308) :
    ∃ quotient held, Near 2 (significand / 10 ^ places) quotient ∧
      (0 ≤ quotient ∧ quotient ≤ 2 ^ 65) ∧
      HasSize .positive held
        (Float.ofNat significand / Rounding.powerOfTen places).toModel.unpack ∧
      0 ≤ held ∧ |held - quotient| ≤ quotient * (1 / 2 ^ 52) + halfLeast := by
  rcases exists_hasSize_ofNat fits with ⟨number, hasNumber, nearNumber, large⟩
  rcases exists_hasSize_powerOfTen few with ⟨power, hasPower, nearPower, atLeastOne⟩
  have nonneg := nonneg_of_large large
  have positive := lt_of_lt_of_le one_pos atLeastOne
  have bounded : number ≤ 2 ^ 65 := by
    have most : (significand : ℚ) ≤ 2 ^ 64 := by exact_mod_cast fits.le
    have held := nearNumber.le (by decide) (Nat.cast_nonneg _)
    linarith
  rcases exists_hasSize_div hasNumber hasPower nonneg
      (bounded.trans (Rounding.pow_le_greatest (by decide))) atLeastOne with
    ⟨held, has, heldNonneg, missed⟩
  refine ⟨number / power, held, ?_, ⟨?_, ?_⟩, has, heldNonneg, missed⟩
  · exact nearNumber.div nearPower (Nat.cast_nonneg _) nonneg (by positivity) positive
  · exact div_nonneg nonneg positive.le
  · exact (div_le_self nonneg atLeastOne).trans bounded

theorem isClose_div (fits : significand < UInt64.size) (few : places ≤ 308)
    (near : Near 1 size (significand / 10 ^ places)) (nonneg : 0 ≤ size) :
    IsClose .positive size
      (Float.ofNat significand / Rounding.powerOfTen places).toModel.unpack := by
  rcases exists_quotient fits few with ⟨quotient, held, nearQuotient, _, has, _, missed⟩
  have close := (near.trans nearQuotient).abs_sub_le (by decide) nonneg
  have least := Rounding.halfLeast_pos
  refine ⟨held, has, ?_⟩
  rw [abs_sub_le_iff] at missed close ⊢
  norm_num at missed close ⊢
  constructor <;> linarith

theorem halfLeast_le_one : halfLeast ≤ 1 := by
  have unit : (2 : ℚ) ^ (-1074 : Int) ≤ 1 := zpow_le_one_of_nonpos₀ one_le_two (by decide)
  unfold halfLeast
  linarith

/-- What a quotient misses is divided again with it, and does not grow by that. -/
theorem abs_div_sub_div_le {quotient first power : ℚ}
    (missed : |first - quotient| ≤ quotient * (1 / 2 ^ 52) + halfLeast) (atLeastOne : 1 ≤ power) :
    |first / power - quotient / power| ≤ quotient / power * (1 / 2 ^ 52) + halfLeast := by
  have positive := lt_of_lt_of_le one_pos atLeastOne
  have divided := div_le_self Rounding.halfLeast_pos.le atLeastOne
  calc |first / power - quotient / power| = |first - quotient| / power := by
        rw [← sub_div, abs_div, abs_of_pos positive]
    _ ≤ (quotient * (1 / 2 ^ 52) + halfLeast) / power :=
        div_le_div_of_nonneg_right missed positive.le
    _ = quotient / power * (1 / 2 ^ 52) + halfLeast / power := by ring
    _ ≤ quotient / power * (1 / 2 ^ 52) + halfLeast := by linarith

/-- Two quotients with powers of ten are close to what they stand for. -/
theorem isClose_div_div {others : Nat} (fits : significand < UInt64.size) (few : places ≤ 308)
    (fewOthers : others ≤ 308)
    (near : Near 1 size (significand / 10 ^ (places + others))) (nonneg : 0 ≤ size) :
    IsClose .positive size (Float.ofNat significand / Rounding.powerOfTen places /
      Rounding.powerOfTen others).toModel.unpack := by
  rcases exists_quotient fits few with
    ⟨quotient, first, nearQuotient, ⟨quotientNonneg, bounded⟩, hasFirst, firstNonneg, missedFirst⟩
  rcases exists_hasSize_powerOfTen fewOthers with ⟨power, hasPower, nearPower, atLeastOne⟩
  have positive := lt_of_lt_of_le one_pos atLeastOne
  have firstBounded : first ≤ 2 ^ 67 := by
    have distance := le_abs_self (first - quotient)
    have small := halfLeast_le_one
    linarith
  rcases exists_hasSize_div hasFirst hasPower firstNonneg
      (firstBounded.trans (Rounding.pow_le_greatest (by decide))) atLeastOne with
    ⟨second, hasSecond, _, missedSecond⟩
  have least := Rounding.halfLeast_pos
  have missedBetween := abs_div_sub_div_le missedFirst atLeastOne
  have parts := nearQuotient.div nearPower (by positivity) quotientNonneg (by positivity) positive
  rw [div_div (significand : ℚ), ← pow_add] at parts
  have close := (near.trans parts).abs_sub_le (by decide) nonneg
  refine ⟨second, hasSecond, ?_⟩
  rw [abs_sub_le_iff] at missedSecond missedBetween close ⊢
  norm_num at missedSecond missedBetween close ⊢
  constructor <;> linarith

theorem hasSize_zero : HasSize .positive 0 (0 : Float).toModel.unpack :=
  .zero

/-- What is scaled down further than two powers of ten reach is close to zero. -/
theorem isClose_zero (fits : significand < UInt64.size) (many : 616 < places)
    (near : Near 1 size (significand / 10 ^ places)) (nonneg : 0 ≤ size) :
    IsClose .positive size (0 : Float).toModel.unpack := by
  have most : (significand : ℚ) ≤ 2 ^ 64 := by exact_mod_cast fits.le
  have scale : (2 : ℚ) ^ 1139 ≤ 10 ^ places := by
    calc (2 : ℚ) ^ 1139 ≤ 2 ^ (3 * 617) := pow_le_pow_right₀ one_le_two (by decide)
      _ = 8 ^ 617 := by rw [pow_mul]; norm_num
      _ ≤ 10 ^ 617 := pow_le_pow_left₀ (by norm_num) (by norm_num) _
      _ ≤ 10 ^ places := pow_le_pow_right₀ (by norm_num) many
  have quotient : (significand : ℚ) / 10 ^ places ≤ halfLeast := by
    calc (significand : ℚ) / 10 ^ places ≤ 2 ^ 64 / 2 ^ 1139 :=
          div_le_div₀ (by positivity) most (by positivity) scale
      _ = halfLeast := by
          rw [← zpow_natCast, ← zpow_natCast, ← zpow_sub₀ two_ne_zero, halfLeast,
            div_eq_mul_inv, ← zpow_sub_one₀ two_ne_zero]
          rfl
  have missed := near.abs_sub_le (by decide) nonneg
  refine ⟨0, hasSize_zero, ?_⟩
  rw [abs_sub_le_iff] at missed ⊢
  have least := Rounding.halfLeast_pos
  clear scale most
  norm_num at missed ⊢
  constructor <;> linarith

theorem eq_zero_of_beq (fits : significand < UInt64.size)
    (zero : (Float.ofNat significand == 0) = true) : significand = 0 := by
  rcases exists_hasSize_ofNat fits with ⟨number, has, near, _⟩
  rw [Rounding.beq_zero_eq] at zero
  have lower := near.lower
  generalize (Float.ofNat significand).toModel.unpack = held at *
  cases has with
  | zero =>
      have kept := pow_pos Rounding.keptPart_pos 1
      exact_mod_cast le_antisymm (nonpos_of_mul_nonpos_left lower kept) (Nat.cast_nonneg _)
  | finite => cases zero

variable {digits : ScaledDigits}

theorem isClose_of_downward (fits : digits.significand < UInt64.size) (nonneg : 0 ≤ size)
    (near : Near 1 size (digits.significand * 10 ^ digits.exponent))
    (downward : digits.exponent < 0) :
    IsClose .positive size
      (shrink (Float.ofNat digits.significand) digits.exponent.natAbs).toModel.unpack := by
  rw [mul_zpow_of_downward downward] at near
  unfold shrink
  split
  case isTrue few => exact isClose_div fits few near nonneg
  case isFalse many =>
    split
    case isTrue fewer =>
      have parts : digits.exponent.natAbs = 308 + (digits.exponent.natAbs - 308) := by omega
      rw [parts] at near
      exact isClose_div_div fits le_rfl (by omega) near nonneg
    case isFalse beyond => exact isClose_zero fits (by omega) near nonneg

theorem isClose_of_grow? (fits : significand < UInt64.size) (nonneg : 0 ≤ size)
    (near : Near 1 size (significand * 10 ^ places))
    (found : grow? (Float.ofNat significand) places = some value) :
    IsClose .positive size value.toModel.unpack := by
  unfold grow? at found
  split at found
  case isTrue few =>
    dsimp only at found
    split at found
    case isTrue => cases found
    case isFalse finite =>
      cases found
      exact isClose_mul fits few near nonneg (Bool.eq_false_of_not_eq_true finite)
  case isFalse many =>
    split at found
    case isTrue zero =>
      cases found
      rw [eq_zero_of_beq fits zero, Nat.cast_zero, zero_mul] at near
      have kept := pow_pos Rounding.keptPart_pos 1
      rw [le_antisymm (nonpos_of_mul_nonpos_left near.lower kept) nonneg]
      exact isClose_of_near (Near.refl le_rfl 0) (by decide) le_rfl hasSize_zero
    case isFalse => cases found

/-- Scaled digits are held close to what they stand for. -/
theorem isClose_of_toFloat? (fits : digits.significand < UInt64.size) (nonneg : 0 ≤ size)
    (near : Near 1 size (digits.significand * 10 ^ digits.exponent))
    (found : digits.toFloat? = some value) : IsClose .positive size value.toModel.unpack := by
  unfold toFloat? at found
  split at found
  case isTrue downward =>
    cases found
    exact isClose_of_downward fits nonneg near downward
  case isFalse upward =>
    rw [mul_zpow_of_upward upward] at near
    exact isClose_of_grow? fits nonneg near found

theorem le_greatest : 10 ^ 308 * (5 / 4) ≤ Rounding.greatest := by
  have whole : 10 ^ 308 * 5 ≤ (2 * Rounding.leadingBit - 1) * 2 ^ 971 * 4 := by
    decide +kernel
  have cast : ((10 ^ 308 * 5 : Nat) : ℚ) ≤ ((2 * Rounding.leadingBit - 1) * 2 ^ 971 * 4 : Nat) :=
    Nat.cast_le.mpr whole
  rw [Nat.cast_mul, Nat.cast_mul, Nat.cast_mul, Nat.cast_pow, Nat.cast_pow, Nat.cast_ofNat,
    Nat.cast_ofNat, Nat.cast_ofNat, Nat.cast_ofNat] at cast
  unfold Rounding.greatest Rounding.amount
  have unit : (2 : ℚ) ^ Rounding.greatestExponent = 2 ^ 971 := zpow_natCast 2 971
  rw [unit]
  generalize (10 : ℚ) ^ 308 = ten at *
  generalize (2 : ℚ) ^ 971 = two at *
  linarith

/-- What is not beyond the greatest power of ten is not refused. -/
theorem exists_grow? (fits : significand < UInt64.size) (nonneg : 0 ≤ size)
    (near : Near 1 size (significand * 10 ^ places)) (bounded : size ≤ 10 ^ 308) :
    ∃ value, grow? (Float.ofNat significand) places = some value := by
  unfold grow?
  split
  case isTrue few =>
    rcases exists_product fits few with ⟨product, nearProduct, _, rounded⟩
    have least : product ≤ Rounding.greatest :=
      calc product ≤ size * (5 / 4) := (near.trans nearProduct).le (by decide) nonneg
        _ ≤ 10 ^ 308 * (5 / 4) := mul_le_mul_of_nonneg_right bounded (by norm_num)
        _ ≤ Rounding.greatest := le_greatest
    have finite := rounded.isInf least
    rw [← Rounding.isInf_eq] at finite
    exact ⟨_, if_neg (Bool.eq_false_iff.mp finite)⟩
  case isFalse many =>
    have zero : significand = 0 := by
      by_contra nonzero
      have positive : (1 : ℚ) ≤ significand := Nat.one_le_cast.mpr (Nat.pos_of_ne_zero nonzero)
      have large : (10 : ℚ) ^ 308 * 10 ≤ 10 ^ places :=
        (pow_succ (10 : ℚ) 308).symm.trans_le (pow_le_pow_right₀ (by norm_num) (by omega))
      have scaled := le_mul_of_one_le_left (pow_nonneg (by norm_num : (0 : ℚ) ≤ 10) places) positive
      have held := near.le (by decide) nonneg
      generalize (10 : ℚ) ^ places = power at *
      have some : (0 : ℚ) < 10 ^ 308 := pow_pos (by norm_num) 308
      generalize (10 : ℚ) ^ 308 = most at *
      linarith
    subst zero
    exact ⟨0, if_pos (by decide +kernel)⟩

theorem exists_toFloat?_of_le (fits : digits.significand < UInt64.size) (nonneg : 0 ≤ size)
    (near : Near 1 size (digits.significand * 10 ^ digits.exponent)) (bounded : size ≤ 10 ^ 308) :
    ∃ value, digits.toFloat? = some value := by
  unfold toFloat?
  split
  case isTrue => exact ⟨_, rfl⟩
  case isFalse upward =>
    rw [mul_zpow_of_upward upward] at near
    exact exists_grow? fits nonneg near bounded

theorem significand_lt (numeral : Numeral) : (ofNumeral numeral).significand < UInt64.size := by
  rcases exists_ofNumeral_eq numeral with ⟨_, _, _, _, _, takesPlaces, taken⟩
  rw [taken]
  exact takesPlaces.fits

end ScaledDigits

namespace Numeral

variable {numeral : Numeral} {value : Float}

/-- Whether a number is close to the amount that a numeral writes, with the same sign. -/
def IsNearly (numeral : Numeral) (value : Float) : Prop :=
  Rounding.IsClose numeral.sign numeral.size value.toModel.unpack

theorem size_nonneg (numeral : Numeral) : 0 ≤ numeral.size := by
  rw [size_eq]
  positivity

/-- A number that is not beyond the greatest power of ten is not refused. -/
theorem exists_jsonValue? (decimal : ∀ digit ∈ numeral.whole ++ numeral.fraction, digit < 10)
    (bounded : numeral.size ≤ 10 ^ 308) : ∃ value, numeral.jsonValue? = some value := by
  rcases ScaledDigits.exists_toFloat?_of_le (ScaledDigits.significand_lt numeral)
    numeral.size_nonneg (ScaledDigits.near_ofNumeral decimal) bounded with ⟨size, found⟩
  exact ⟨_, Option.map_eq_some_iff.mpr ⟨size, found, rfl⟩⟩

/-- However many digits a number has, it is read as one that is close to it. -/
theorem isNearly_of_jsonValue?
    (decimal : ∀ digit ∈ numeral.whole ++ numeral.fraction, digit < 10)
    (found : numeral.jsonValue? = some value) : numeral.IsNearly value := by
  rcases Option.map_eq_some_iff.mp found with ⟨size, foundSize, rfl⟩
  have close := ScaledDigits.isClose_of_toFloat? (ScaledDigits.significand_lt numeral)
    numeral.size_nonneg (ScaledDigits.near_ofNumeral decimal) foundSize
  unfold IsNearly sign
  cases numeral.negative with
  | false => exact close
  | true => exact close.neg

end Numeral

end MediaQuery
