import MediaQuery.Proofs.Feature.Bound

/-!
# Counts

A text that spells an integer counts as the nearest value of thirty-two bits, and a number that is
whole counts as itself up to sixty-four bits. So a test of counts compares what is written exactly
where the written integer fits thirty-two bits, and it takes all larger integers for one another.
-/

namespace MediaQuery

namespace Rounding

open Float.Model (UnpackedFloat)

/-- The integers of the given width in bits, one of them the sign. -/
def Fits (width : Nat) (number : Int) : Prop :=
  -(Nat.pow 2 (width - 1) : Int) ≤ number ∧ number < (Nat.pow 2 (width - 1) : Int)

instance (width : Nat) (number : Int) : Decidable (Fits width number) :=
  inferInstanceAs (Decidable (_ ∧ _))

/-- The integers that fit are those that stay as they are. -/
theorem saturate_eq_self_iff (width : Nat) (number : Int) :
    saturate width number = number ↔ Fits width number := by
  simp only [saturate, Fits]
  split
  · omega
  · split
    · omega
    · omega

/-- The integers that numbers are exactly. -/
inductive IsWhole (number : Float) : Int → Prop
  | zero {sign : UnpackedFloat.Sign} (unpacked : number.toModel.unpack = .zero sign) :
      IsWhole number 0
  | finite {sign : UnpackedFloat.Sign} {mantissa size : Nat} {exponent : Int}
      {positive : 0 < mantissa}
      (unpacked : number.toModel.unpack = .finite sign mantissa exponent positive)
      (exact : mantissa * Nat.pow 2 exponent.toNat = size * Nat.pow 2 (-exponent).toNat) :
      IsWhole number (sign.apply size)

/-- A number that is an integer has no fraction to lose. -/
theorem IsWhole.truncate? {number : Float} {whole : Int} (isWhole : IsWhole number whole) :
    truncate? number = some whole := by
  cases isWhole with
  | zero unpacked => rw [Rounding.truncate?, unpacked]
  | @finite sign mantissa size exponent positive unpacked exact =>
      have scale : 0 < Nat.pow 2 (-exponent).toNat := Nat.pow_pos (by decide)
      rw [Rounding.truncate?, unpacked]
      dsimp only
      rw [exact, Nat.mul_div_cancel size scale]

end Rounding

open Rounding (saturate Fits IsWhole)

variable {text : String} {value : Int}

theorem integerOfText_of_isIntegral (isIntegral : IsIntegral text.toList value) :
    integerOfText text = .ok (saturate 32 value) :=
  integerOfText_eq_ok_iff.mpr ⟨value, isIntegral, rfl⟩

theorem FeatureValue.toInteger_of_isWhole {number : Float} {whole : Int}
    (isWhole : IsWhole number whole) (fits : Fits 64 whole) :
    toInteger (.number number) = .ok whole := by
  rw [toInteger, isWhole.truncate?]
  exact congrArg Except.ok ((Rounding.saturate_eq_self_iff 64 whole).mpr fits)

/--
A text that spells an integer is read as the nearest one of thirty-two bits, which is the integer
itself exactly if it fits. A test for it compares that value to every number that is an integer of
sixty-four bits, and holds for another spelled integer exactly if both count as the same one.
-/
theorem FeatureTest.accepts_integral (isIntegral : IsIntegral text.toList value) :
    (integerOfText text = .ok (saturate 32 value) ∧
        FeatureValue.toInteger (.text text) = .ok (saturate 32 value)) ∧
      (saturate 32 value = value ↔ Fits 32 value) ∧
      ∀ (test : FeatureTest) (feature : Feature), Feature.ofName? test.name = some feature →
        feature.kind = .integer → test.value = some text →
        (∀ number whole, IsWhole number whole → Fits 64 whole →
          test.accepts (.number number) = test.bound.admits (saturate 32 value) whole) ∧
        ∀ other otherValue, IsIntegral other.toList otherValue →
          test.accepts (.text other) =
            test.bound.admits (saturate 32 value) (saturate 32 otherValue) := by
  have isInteger := integerOfText_of_isIntegral isIntegral
  refine ⟨⟨isInteger, isInteger⟩, Rounding.saturate_eq_self_iff 32 value, ?_⟩
  intro test feature known isCount isValue
  constructor
  · intro number whole isWhole fits
    exact accepts_count known isCount isValue
      (FeatureValue.toInteger_of_isWhole isWhole fits) isInteger
  · intro other otherValue isOther
    exact accepts_count known isCount isValue (integerOfText_of_isIntegral isOther) isInteger

/-- A negative count against the number that it is and against another spelling of it. -/
theorem FeatureTest.accepts_integral_negative :
    let test : FeatureTest := { bound := .max, name := "color", value := some "-3" }
    IsIntegral "-3".toList (-3) ∧ (IsWhole (-3) (-3) ∧ Fits 64 (-3)) ∧
      IsIntegral " -03".toList (-3) ∧
      test.accepts (.number (-3)) = Bound.max.admits (saturate 32 (-3)) (-3) ∧
      test.accepts (.text " -03") = Bound.max.admits (saturate 32 (-3)) (saturate 32 (-3)) := by
  intro test
  have isIntegral : IsIntegral "-3".toList (-3) :=
    ⟨[], true, ['-'], ['3'], [], rfl, ⟨.nil, .blank .nil⟩, .minus,
      ⟨by decide, List.all_eq_true.mp (by decide)⟩, rfl⟩
  have isOther : IsIntegral " -03".toList (-3) :=
    ⟨[' '], true, ['-'], ['0', '3'], [], rfl, ⟨.space (by decide) .nil, .blank .nil⟩, .minus,
      ⟨by decide, List.all_eq_true.mp (by decide)⟩, rfl⟩
  have isWhole : IsWhole (-3) (-3) :=
    @IsWhole.finite (-3) .negative (Nat.mul 3 (Nat.pow 2 51)) 3 (-51) (by decide) rfl rfl
  have fits : Fits 64 (-3) := by decide
  rcases (accepts_integral isIntegral).2.2 test .color rfl rfl rfl with ⟨number, other⟩
  exact ⟨isIntegral, ⟨isWhole, fits⟩, isOther, number _ _ isWhole fits, other _ _ isOther⟩

/-- An integer of thirty-three bits is read as another one, and is taken for others. -/
theorem FeatureTest.accepts_integral_cut :
    let test : FeatureTest := { name := "color", value := some "3000000000" }
    IsIntegral "3000000000".toList 3000000000 ∧
      (IsWhole 3000000000 3000000000 ∧ Fits 64 3000000000) ∧
      integerOfText "3000000000" ≠ .ok 3000000000 ∧
      test.accepts (.number 3000000000) = false ∧ test.accepts (.text "2147483648") = true := by
  intro test
  have isIntegral : IsIntegral "3000000000".toList 3000000000 :=
    ⟨[], false, [], "3000000000".toList, [], rfl, ⟨.nil, .blank .nil⟩, .absent,
      ⟨by decide, List.all_eq_true.mp (by decide)⟩, rfl⟩
  have isWhole : IsWhole 3000000000 3000000000 :=
    @IsWhole.finite 3000000000 .positive (Nat.mul 3000000000 (Nat.pow 2 21)) 3000000000 (-21)
      (by decide) rfl rfl
  have read : integerOfText "3000000000" = .ok 2147483647 := rfl
  refine ⟨isIntegral, ⟨isWhole, by decide⟩, ?_, by decide, by decide⟩
  rw [read]
  decide

end MediaQuery
