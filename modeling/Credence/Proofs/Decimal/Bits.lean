import Credence.Proofs.Decimal.Finite
import Mathlib

/-!
# The bits of a number

A number is its bits: taking bits apart and putting them together again changes nothing, and a
finite number without a sign has the bits that its mantissa and its exponent spell.
-/

namespace Credence.Decimal

open Float.Model (Format)
open Float.Model.UnpackedFloat (pack unpack pack_unpack_of_valid)

variable {x : Float} {m n : Nat} {q : Int}

/-- Bits that stand for a number are those of the number that they make. -/
theorem toBits_ofBits {b : UInt64} (hb : Format.binary64.Valid b.toBitVec) :
    (Float.ofBits b).toBits = b := by
  show UInt64.ofBitVec (pack .binary64 (unpack .binary64 b.toBitVec)) = b
  rw [pack_unpack_of_valid hb]

/-! ## Mantissa and exponent -/

/-- The numbers of 64 bits have fifty-three digits in base two, and fewer only at the least
exponent. -/
structure Canonical (m : Nat) (q : Int) : Prop where
  mantissa_lt : m < 2 ^ 53
  exponent_ge : -1074 ≤ q
  exponent_le : q ≤ 971
  full : 2 ^ 52 ≤ m ∨ q = -1074

/-- The bits of a number without a sign. -/
def encode (m : Nat) (q : Int) : Nat :=
  if m < twoPow 52 then m else (q + 1075).toNat * twoPow 52 + (m - twoPow 52)

theorem anatomy_eq_finite (h : anatomy x = .finite ⟨false, m, q⟩) :
    Canonical m q ∧ x.toBits.toNat = encode m q ∧ encode m q < 2047 * twoPow 52 := by
  have htwo52 : twoPow 52 = 2 ^ 52 := rfl
  have htwo11 : twoPow 11 = 2 ^ 11 := rfl
  have htwo63 : twoPow 63 = 2 ^ 63 := rfl
  have hbits : x.toBits.toNat < 2 ^ 64 := x.toBits.toNat_lt
  unfold anatomy at h
  dsimp only at h
  rw [htwo52, htwo11, htwo63] at h
  unfold encode
  rw [htwo52]
  split_ifs at h with hlarge hinfinite hsmall
  · simp only [Anatomy.finite.injEq, Parts.mk.injEq, beq_eq_false_iff_ne] at h
    obtain ⟨hsign, rfl, rfl⟩ := h
    refine ⟨⟨by omega, by omega, by omega, .inr rfl⟩, ?_⟩
    rw [if_pos (by omega)]
    omega
  · simp only [Anatomy.finite.injEq, Parts.mk.injEq, beq_eq_false_iff_ne] at h
    obtain ⟨hsign, rfl, rfl⟩ := h
    refine ⟨⟨by omega, by omega, by omega, .inl (by omega)⟩, ?_⟩
    rw [if_neg (by omega)]
    omega

/-- A finite number without a sign is made of the bits that its mantissa and its exponent spell. -/
theorem ofBits_encode (h : anatomy x = .finite ⟨false, m, q⟩) :
    Float.ofBits (UInt64.ofNat (encode m q)) = x := by
  obtain ⟨-, hbits, -⟩ := anatomy_eq_finite h
  rw [← hbits, UInt64.ofNat_toNat]
  exact Float.ofBits_toBits x

/-- Up to those of infinity all bits make a number without a sign. -/
theorem isRead_ofBits (hn : n ≤ 2047 * twoPow 52) : IsRead (Float.ofBits (UInt64.ofNat n)) := by
  have htwo52 : twoPow 52 = 2 ^ 52 := rfl
  have htwo11 : twoPow 11 = 2 ^ 11 := rfl
  have htwo63 : twoPow 63 = 2 ^ 63 := rfl
  rw [htwo52] at hn
  have hnat : (UInt64.ofNat n).toNat = n := UInt64.toNat_ofNat_of_lt' (by show n < 2 ^ 64; omega)
  have hvalid : Format.binary64.Valid (UInt64.ofNat n).toBitVec := by
    refine ⟨fun hexponent hmantissa => absurd ?_ hmantissa⟩
    have hfield : (UInt64.ofNat n).toNat >>> 52 % 2 ^ 11 = 2047 := congrArg BitVec.toNat hexponent
    refine BitVec.eq_of_toNat_eq ?_
    show (UInt64.ofNat n).toNat >>> 0 % 2 ^ 52 = 0
    rw [hnat, Nat.shiftRight_eq_div_pow] at hfield
    rw [hnat, Nat.shiftRight_zero]
    omega
  unfold IsRead IsUnsigned IsOverflow anatomy
  rw [toBits_ofBits hvalid, hnat, htwo52, htwo11, htwo63]
  dsimp only
  have hsign : (n / 2 ^ 63 % 2 == 1) = false := by
    rw [beq_eq_false_iff_ne]
    omega
  rw [hsign]
  split_ifs with hlarge hinfinite hsmall
  · exact .inr rfl
  · omega
  · exact .inl ⟨_, _, rfl⟩
  · exact .inl ⟨_, _, rfl⟩

end Credence.Decimal
