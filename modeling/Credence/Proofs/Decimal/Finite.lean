import Credence.Decimal.Binary64

/-!
# Finite numbers

What `anatomy` finds infinite or undefined is so for the comparisons of numbers too, since both look
at the same bits.  So a number that was found to be neither below zero nor above one is finite.
-/

namespace Credence.Decimal

open Float.Model (UnpackedFloat Format)
open Float.Model.UnpackedFloat (unpackExponent)

variable {x y : Float}

/-- Whether a number is finite and has no sign. -/
def IsUnsigned (x : Float) : Prop := ∃ m q, anatomy x = .finite ⟨false, m, q⟩

/-- Whether a number is infinite and has no sign. -/
def IsOverflow (x : Float) : Prop := anatomy x = .infinite false

/-- Whether a number is one that digits can say, however many they are. -/
def IsRead (x : Float) : Prop := IsUnsigned x ∨ IsOverflow x

theorem IsUnsigned.isFinite (h : IsUnsigned x) : isFinite x = true := by
  obtain ⟨m, q, hx⟩ := h
  unfold Decimal.isFinite
  rw [hx]

theorem IsOverflow.not_isFinite (h : IsOverflow x) : isFinite x = false := by
  unfold Decimal.isFinite
  rw [h]

/-! ## Comparisons -/

/-- The comparisons read the same field. -/
theorem toNat_unpackExponent (x : Float) :
    (@unpackExponent Format.binary64 x.toModel.toBits.toBitVec).toNat =
      x.toBits.toNat / twoPow 52 % twoPow 11 := by
  show (x.toModel.toBits.toNat >>> 52) % twoPow 11 = _
  rw [Nat.shiftRight_eq_div_pow]
  rfl

theorem isFinite_of_field_ne (hx : x.toBits.toNat / twoPow 52 % twoPow 11 ≠ 2047) :
    isFinite x = true := by
  unfold isFinite anatomy
  dsimp only
  rw [if_neg hx]
  by_cases hzero : x.toBits.toNat / twoPow 52 % twoPow 11 = 0
  · rw [if_pos hzero]
  · rw [if_neg hzero]

theorem unpack_of_not_finite (hx : ¬ isFinite x = true) :
    x.toModel.unpack = .notANumber ∨ ∃ sign, x.toModel.unpack = .infinity sign := by
  have hfield : x.toBits.toNat / twoPow 52 % twoPow 11 = 2047 :=
    Decidable.not_not.mp fun h => hx (isFinite_of_field_ne h)
  have hexponent : @unpackExponent Format.binary64 x.toModel.toBits.toBitVec = -1#11 :=
    BitVec.eq_of_toNat_eq ((toNat_unpackExponent x).trans hfield)
  unfold Float.Model.unpack UnpackedFloat.unpack
  dsimp only
  rw [if_pos hexponent]
  split
  · exact .inr ⟨_, rfl⟩
  · exact .inl rfl

theorem unpack_le_of_le (h : x ≤ y) : x.toModel.unpack.le y.toModel.unpack = true := by
  have hmodel : x.toModel ≤ y.toModel := of_decide_eq_true h
  exact hmodel

/-- The numbers from zero to one are finite. -/
theorem isFinite_of_le_one (hzero : 0 ≤ x) (hone : x ≤ 1) : isFinite x = true := by
  by_cases hx : isFinite x = true
  · exact hx
  · have hlow := unpack_le_of_le hzero
    have hhigh := unpack_le_of_le hone
    rcases unpack_of_not_finite hx with hundefined | ⟨sign, hinfinity⟩
    · rw [hundefined] at hhigh
      exact absurd hhigh (by decide)
    · cases sign with
      | positive =>
          rw [hinfinity] at hhigh
          exact absurd hhigh (by decide +kernel)
      | negative =>
          rw [hinfinity] at hlow
          exact absurd hlow (by decide +kernel)

end Credence.Decimal
