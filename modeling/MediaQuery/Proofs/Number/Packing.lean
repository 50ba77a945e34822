import Mathlib
import MediaQuery.Proofs.Number.Order

/-!
# Numbers and their bits

A number is kept as its bits, and every operation takes it apart, computes, and puts the result
together again. Putting together what was taken apart gives the same bits; the other way round,
the sign stays, what is undefined stays undefined, and a finite value stays finite if its exponent
fits.
-/

namespace MediaQuery

namespace Rounding

open Float.Model (UnpackedFloat Format)

/-- The sign of a value, if the value is defined. -/
def sign? : UnpackedFloat → Option UnpackedFloat.Sign
  | .notANumber => none
  | .infinity sign => some sign
  | .zero sign => some sign
  | .finite sign _ _ _ => some sign

@[simp]
theorem sign?_notANumber : sign? .notANumber = none := rfl

@[simp]
theorem sign?_infinity (sign : UnpackedFloat.Sign) : sign? (.infinity sign) = some sign := rfl

@[simp]
theorem sign?_zero (sign : UnpackedFloat.Sign) : sign? (.zero sign) = some sign := rfl

@[simp]
theorem sign?_finite (sign : UnpackedFloat.Sign) {mantissa : Nat} (exponent : Int)
    (positive : 0 < mantissa) : sign? (.finite sign mantissa exponent positive) = some sign := rfl

section Packing

variable {format : Format}

theorem two_le_two_pow_exponentBits : 2 ≤ Nat.pow 2 format.exponentBits :=
  Nat.le_self_pow (Nat.pos_iff_ne_zero.mp format.he) 2

theorem ofNat_ne_allOnes {width number : Nat} (small : number + 1 < Nat.pow 2 width) :
    BitVec.ofNat width number ≠ -1#_ := by
  intro same
  rw [Nat.pow_eq] at small
  have values := congrArg BitVec.toNat same
  rw [BitVec.toNat_ofNat, Nat.mod_eq_of_lt (by omega), BitVec.neg_one_eq_allOnes,
    BitVec.toNat_allOnes] at values
  omega

theorem zero_ne_allOnes : BitVec.ofNat format.exponentBits 0 ≠ -1#_ :=
  ofNat_ne_allOnes two_le_two_pow_exponentBits

/-- What is put together with an exponent below the greatest is a finite value of its sign. -/
theorem unpack_packComponents {sign : UnpackedFloat.Sign} {exponent : BitVec format.exponentBits}
    (ordinary : exponent ≠ -1#_) (mantissa : BitVec format.mantissaBitsWithoutImplicit) :
    let value := UnpackedFloat.unpack format
      (UnpackedFloat.packComponents format sign exponent mantissa)
    sign? value = some sign ∧ value.isFinite = true := by
  dsimp only [UnpackedFloat.unpack]
  simp only [UnpackedFloat.unpackExponent_packComponents,
    UnpackedFloat.unpackMantissa_packComponents, UnpackedFloat.unpackSign_packComponents,
    UnpackedFloat.Sign.ofBitVec_toBitVec, ordinary, if_false]
  split
  · split
    · exact ⟨rfl, rfl⟩
    · exact ⟨rfl, rfl⟩
  · exact ⟨rfl, rfl⟩

/-- A finite value with an exponent that fits stays finite. -/
theorem unpack_pack_finite (sign : UnpackedFloat.Sign) {mantissa : Nat} {exponent : Int}
    (positive : 0 < mantissa)
    (fits : (exponent + format.exponentBias + format.mantissaBitsWithoutImplicit).toNat + 1 <
      Nat.pow 2 format.exponentBits) :
    let value := UnpackedFloat.unpack format
      (UnpackedFloat.pack format (.finite sign mantissa exponent positive))
    sign? value = some sign ∧ value.isFinite = true := by
  have inside := fits
  rw [Nat.pow_eq] at inside
  dsimp only [UnpackedFloat.pack]
  rw [if_neg (by omega)]
  split
  · exact unpack_packComponents (ofNat_ne_allOnes fits) _
  · exact unpack_packComponents zero_ne_allOnes _

theorem unpack_packedInfinity (sign : UnpackedFloat.Sign) :
    UnpackedFloat.unpack format (UnpackedFloat.packedInfinity format sign) = .infinity sign := by
  dsimp only [UnpackedFloat.unpack, UnpackedFloat.packedInfinity]
  simp only [UnpackedFloat.unpackExponent_packComponents,
    UnpackedFloat.unpackMantissa_packComponents, UnpackedFloat.unpackSign_packComponents,
    UnpackedFloat.Sign.ofBitVec_toBitVec, if_true]
  rfl

/-- A finite value with an exponent that does not fit becomes infinite. -/
theorem unpack_pack_infinite (sign : UnpackedFloat.Sign) {mantissa : Nat} {exponent : Int}
    (positive : 0 < mantissa)
    (exceeds : Nat.pow 2 format.exponentBits ≤
      (exponent + format.exponentBias + format.mantissaBitsWithoutImplicit).toNat + 1) :
    UnpackedFloat.unpack format
      (UnpackedFloat.pack format (.finite sign mantissa exponent positive)) = .infinity sign := by
  rw [Nat.pow_eq] at exceeds
  dsimp only [UnpackedFloat.pack]
  rw [if_pos exceeds]
  exact unpack_packedInfinity sign

/-- A value that is defined keeps its sign, even if it is too large. -/
theorem sign?_unpack_pack {value : UnpackedFloat} (defined : value ≠ .notANumber) :
    sign? (UnpackedFloat.unpack format (UnpackedFloat.pack format value)) = sign? value := by
  cases value with
  | notANumber => exact absurd rfl defined
  | infinity sign => exact congrArg sign? (unpack_packedInfinity sign)
  | zero sign => exact (unpack_packComponents zero_ne_allOnes _).1
  | finite sign mantissa exponent positive =>
      by_cases fits :
          (exponent + format.exponentBias + format.mantissaBitsWithoutImplicit).toNat + 1 <
            Nat.pow 2 format.exponentBits
      · exact (unpack_pack_finite sign positive fits).1
      · rw [unpack_pack_infinite sign positive (Nat.le_of_not_lt fits)]
        rfl

end Packing

/-- The result of an operation has the sign that was computed, and none if it is undefined. -/
theorem sign?_pack (value : UnpackedFloat) :
    sign? (Float.Model.pack value).unpack = sign? value := by
  by_cases undefined : value = .notANumber
  · rw [undefined]
    rfl
  · exact sign?_unpack_pack undefined

section Unpacking

/-- The greatest exponent of a finite number. -/
def greatestExponent : Int :=
  971

variable {bits : BitVec Format.binary64.numBits}

theorem unpackExponent_lt (ordinary : UnpackedFloat.unpackExponent bits ≠ -1#_) :
    (UnpackedFloat.unpackExponent bits).toNat + 1 < Nat.pow 2 11 := by
  have below : (UnpackedFloat.unpackExponent bits).toNat < Nat.pow 2 11 :=
    (UnpackedFloat.unpackExponent bits).isLt
  have allOnes : (-1#11).toNat = Nat.pow 2 11 - 1 := rfl
  apply Nat.lt_of_not_le
  intro greatest
  apply ordinary
  apply BitVec.eq_of_toNat_eq
  refine Eq.trans ?_ allOnes.symm
  omega

theorem exponent_le_of_unpack {sign : UnpackedFloat.Sign} {mantissa : Nat} {exponent : Int}
    {positive : 0 < mantissa}
    (unpacked : UnpackedFloat.unpack .binary64 bits = .finite sign mantissa exponent positive) :
    exponent ≤ greatestExponent := by
  have bias : (Format.binary64.exponentBias : Int) = 1023 := rfl
  have kept : (Format.binary64.mantissaBitsWithoutImplicit : Int) = 52 := rfl
  rw [UnpackedFloat.unpack] at unpacked
  split at unpacked
  case isTrue special =>
    split at unpacked <;> cases unpacked
  case isFalse ordinary =>
    have below := unpackExponent_lt ordinary
    have places : Nat.pow 2 11 = 2048 := rfl
    unfold greatestExponent
    split at unpacked
    case isTrue smallest =>
      have least : (UnpackedFloat.unpackExponent bits).toNat = 0 := by rw [smallest]; rfl
      split at unpacked <;> cases unpacked
      omega
    case isFalse =>
      cases unpacked
      omega

theorem log2_of_full (full : leadingBit ≤ mantissa) (short : mantissa < 2 * leadingBit) :
    mantissa.log2 + 1 = Format.binary64.mantissaBits := by
  have nonzero : mantissa ≠ 0 := by
    have leading : 0 < leadingBit := by decide
    omega
  have least : 52 ≤ mantissa.log2 := (Nat.le_log2 nonzero).mpr full
  have greatest : mantissa.log2 < 53 := (Nat.log2_lt nonzero).mpr short
  have kept : Format.binary64.mantissaBits = 53 := rfl
  omega

theorem eq_zero_of_packComponents {format : Format} {sign other : UnpackedFloat.Sign}
    {exponent : BitVec format.exponentBits}
    {mantissa : BitVec format.mantissaBitsWithoutImplicit}
    (zero : UnpackedFloat.packComponents format sign exponent mantissa =
      UnpackedFloat.packedZero format other) : exponent = 0#_ ∧ mantissa = 0#_ := by
  have sameExponent := congrArg UnpackedFloat.unpackExponent zero
  have sameMantissa := congrArg UnpackedFloat.unpackMantissa zero
  rw [UnpackedFloat.packedZero, UnpackedFloat.unpackExponent_packComponents,
    UnpackedFloat.unpackExponent_packComponents] at sameExponent
  rw [UnpackedFloat.packedZero, UnpackedFloat.unpackMantissa_packComponents,
    UnpackedFloat.unpackMantissa_packComponents] at sameMantissa
  exact ⟨sameExponent, sameMantissa⟩

/-- A mantissa and an exponent that need no rounding are not put together as zero. -/
theorem pack_ne_packedZero {mantissa : Nat} {exponent : Int} (sign other : UnpackedFloat.Sign)
    (positive : 0 < mantissa) (short : mantissa < 2 * leadingBit) (least : -1074 ≤ exponent) :
    UnpackedFloat.pack .binary64 (.finite sign mantissa exponent positive) ≠
      UnpackedFloat.packedZero .binary64 other := by
  have bias : (Format.binary64.exponentBias : Int) = 1023 := rfl
  have kept : (Format.binary64.mantissaBitsWithoutImplicit : Int) = 52 := rfl
  intro zero
  dsimp only [UnpackedFloat.pack] at zero
  split at zero
  case isTrue =>
    exact zero_ne_allOnes (eq_zero_of_packComponents zero).1.symm
  case isFalse fits =>
    split at zero
    case isTrue normal =>
      have biased := congrArg BitVec.toNat (eq_zero_of_packComponents zero).1
      rw [BitVec.toNat_ofNat, Nat.mod_eq_of_lt (by omega)] at biased
      have nothing : (BitVec.ofNat Format.binary64.exponentBits 0).toNat = 0 := rfl
      omega
    case isFalse subnormal =>
      have below : mantissa < 2 ^ 52 := by
        apply Nat.lt_of_not_le
        intro full
        exact subnormal (log2_of_full full short)
      have digits := congrArg BitVec.toNat (eq_zero_of_packComponents zero).2
      rw [BitVec.toNat_ofNat, Nat.mod_eq_of_lt below] at digits
      have nothing : (BitVec.ofNat Format.binary64.mantissaBitsWithoutImplicit 0).toNat = 0 := rfl
      omega

/-- A number that is taken apart and put together again is the same number. -/
theorem pack_unpack (number : Float.Model) : Float.Model.pack number.unpack = number := by
  rcases number with ⟨word, valid⟩
  have bits : UnpackedFloat.pack .binary64 (UnpackedFloat.unpack .binary64 word.toBitVec) =
      word.toBitVec := UnpackedFloat.pack_unpack_of_valid valid
  simp only [Float.Model.pack, Float.Model.unpack, bits]

theorem eq_of_unpack_eq {left right : Float}
    (same : left.toModel.unpack = right.toModel.unpack) : left = right := by
  have models : left.toModel = right.toModel := by
    rw [← pack_unpack left.toModel, same, pack_unpack]
  rcases left with ⟨left⟩
  rcases right with ⟨right⟩
  exact congrArg Float.ofModel models

theorem unpack_pack_zero (sign : UnpackedFloat.Sign) :
    (Float.Model.pack (.zero sign)).unpack = .zero sign := by
  cases sign <;> rfl

variable {mantissa : Nat} {exponent : Int}

/-- A mantissa of full length is found again behind its first digit. -/
theorem toNat_leadingBit_append (full : leadingBit ≤ mantissa) (short : mantissa < 2 * leadingBit) :
    (1#1 ++ BitVec.ofNat Format.binary64.mantissaBitsWithoutImplicit mantissa).toNat =
      mantissa := by
  have rest : (BitVec.ofNat Format.binary64.mantissaBitsWithoutImplicit mantissa).toNat =
      mantissa - leadingBit := by
    rw [BitVec.toNat_ofNat]
    change mantissa % leadingBit = _
    rw [Nat.mod_eq_sub_mod full, Nat.mod_eq_of_lt (by omega)]
  have shorter : mantissa - leadingBit < leadingBit := by omega
  rw [BitVec.toNat_append, rest, ← Nat.shiftLeft_add_eq_or_of_lt shorter]
  change leadingBit + _ = _
  omega

theorem unpack_pack_of_full (form : IsBinary64 mantissa exponent) (full : leadingBit ≤ mantissa)
    (fits : exponent ≤ greatestExponent) (sign : UnpackedFloat.Sign) (positive : 0 < mantissa) :
    (Float.Model.pack (.finite sign mantissa exponent positive)).unpack =
      .finite sign mantissa exponent positive := by
  have bias : (Format.binary64.exponentBias : Int) = 1023 := rfl
  have kept : (Format.binary64.mantissaBitsWithoutImplicit : Int) = 52 := rfl
  have short := form.short
  have least := form.least
  unfold greatestExponent at fits
  change UnpackedFloat.unpack .binary64 (UnpackedFloat.pack .binary64 _) = _
  dsimp only [UnpackedFloat.pack]
  rw [if_neg (by omega), if_pos (log2_of_full full short)]
  dsimp only [UnpackedFloat.unpack]
  simp only [UnpackedFloat.unpackExponent_packComponents,
    UnpackedFloat.unpackMantissa_packComponents, UnpackedFloat.unpackSign_packComponents,
    UnpackedFloat.Sign.ofBitVec_toBitVec]
  generalize biased : (exponent + Format.binary64.exponentBias +
    Format.binary64.mantissaBitsWithoutImplicit).toNat = place
  have below : place + 1 < Nat.pow 2 11 := by
    have places : Nat.pow 2 11 = 2048 := rfl
    omega
  have inside : (BitVec.ofNat Format.binary64.exponentBits place).toNat = place := by
    rw [BitVec.toNat_ofNat]
    exact Nat.mod_eq_of_lt (Nat.lt_of_succ_lt below)
  have normal : BitVec.ofNat Format.binary64.exponentBits place ≠ 0#_ := by
    intro zero
    rw [zero] at inside
    have nothing : (BitVec.ofNat Format.binary64.exponentBits 0).toNat = 0 := rfl
    omega
  rw [if_neg (ofNat_ne_allOnes below), if_neg normal]
  simp only [toNat_leadingBit_append full short, inside]
  congr 1
  omega

theorem unpack_pack_of_subnormal (short : mantissa < leadingBit) (sign : UnpackedFloat.Sign)
    (positive : 0 < mantissa) :
    (Float.Model.pack (.finite sign mantissa (-1074) positive)).unpack =
      .finite sign mantissa (-1074) positive := by
  have fits : ¬ 2 ^ Format.binary64.exponentBits ≤ ((-1074 : Int) + Format.binary64.exponentBias +
      Format.binary64.mantissaBitsWithoutImplicit).toNat + 1 := by decide
  have digits : mantissa.log2 + 1 ≠ Format.binary64.mantissaBits := by
    have below : mantissa.log2 < 52 := (Nat.log2_lt (Nat.ne_of_gt positive)).mpr short
    have whole : Format.binary64.mantissaBits = 53 := rfl
    omega
  have inside : (BitVec.ofNat Format.binary64.mantissaBitsWithoutImplicit mantissa).toNat =
      mantissa := by
    rw [BitVec.toNat_ofNat]
    exact Nat.mod_eq_of_lt short
  have nonzero : BitVec.ofNat Format.binary64.mantissaBitsWithoutImplicit mantissa ≠ 0#_ := by
    intro zero
    rw [zero] at inside
    have nothing : (BitVec.ofNat Format.binary64.mantissaBitsWithoutImplicit 0).toNat = 0 := rfl
    omega
  change UnpackedFloat.unpack .binary64 (UnpackedFloat.pack .binary64 _) = _
  dsimp only [UnpackedFloat.pack]
  rw [if_neg fits, if_neg digits]
  dsimp only [UnpackedFloat.unpack]
  simp only [UnpackedFloat.unpackExponent_packComponents,
    UnpackedFloat.unpackMantissa_packComponents, UnpackedFloat.unpackSign_packComponents,
    UnpackedFloat.Sign.ofBitVec_toBitVec]
  have place : ((0#11).toNat : Int) - (Format.binary64.exponentBias + (52 : Nat)) + 1 = -1074 := rfl
  rw [if_neg (by decide), if_pos trivial, dif_neg nonzero]
  simp only [inside, place]

/-- What needs no rounding is taken apart to what it was put together from. -/
theorem unpack_pack_of_isBinary64 (form : IsBinary64 mantissa exponent)
    (fits : exponent ≤ greatestExponent) (sign : UnpackedFloat.Sign) (positive : 0 < mantissa) :
    (Float.Model.pack (.finite sign mantissa exponent positive)).unpack =
      .finite sign mantissa exponent positive := by
  rcases form.full with full | rfl
  · exact unpack_pack_of_full form full fits sign positive
  · by_cases full : leadingBit ≤ mantissa
    · exact unpack_pack_of_full form full fits sign positive
    · exact unpack_pack_of_subnormal (Nat.lt_of_not_le full) sign positive

end Unpacking

end Rounding

end MediaQuery
