import Mathlib
import PolishPlotter.Binary64.Magnitude

set_option autoImplicit false

namespace PolishPlotter.Binary64

open Float.Model Float.Model.UnpackedFloat

variable {x : Float}

theorem magnitude_lt (x : Float) : magnitude x < 2 ^ 63 := Nat.mod_lt _ (by decide)

theorem ofMagnitude_magnitude (x : Float) : ofMagnitude (isNegative x) (magnitude x) = x := by
  have bounded : x.toBits.toNat < 2 ^ 64 := x.toBits.toNat_lt
  have whole : (if isNegative x = true then signBit + magnitude x else magnitude x) =
      x.toBits.toNat := by
    by_cases sign : signBit ≤ x.toBits.toNat <;>
      simp only [isNegative, sign, decide_true, decide_false, if_true, Bool.false_eq_true, if_false]
    · simp only [magnitude, signBit, Nat.pow_eq] at sign ⊢
      omega
    · exact Nat.mod_eq_of_lt (Nat.lt_of_not_le sign)
  simp only [ofMagnitude, whole, UInt64.ofNat_toNat, Float.ofBits_toBits]

theorem toNat_unpackExponent (x : Float) :
    (@unpackExponent Format.binary64 x.toBits.toBitVec).toNat = magnitude x / 2 ^ 52 := by
  change (x.toBits.toNat >>> 52) % 2 ^ 11 = x.toBits.toNat % 2 ^ 63 / 2 ^ 52
  rw [Nat.shiftRight_eq_div_pow]
  omega

theorem toNat_unpackMantissa (x : Float) :
    (@unpackMantissa Format.binary64 x.toBits.toBitVec).toNat = magnitude x % 2 ^ 52 := by
  change (x.toBits.toNat >>> 0) % 2 ^ 52 = x.toBits.toNat % 2 ^ 63 % 2 ^ 52
  rw [Nat.shiftRight_zero]
  omega

-- Only the largest exponent is not that of a number.
theorem isFinite_iff : x.isFinite = true ↔ magnitude x < infinityBits := by
  have bounded := magnitude_lt x
  have largest : @unpackExponent Format.binary64 x.toBits.toBitVec = -1#_ ↔
      infinityBits ≤ magnitude x := by
    rw [← BitVec.toNat_inj, toNat_unpackExponent]
    change magnitude x / 2 ^ 52 = 2047 ↔ _
    simp only [infinityBits]
    omega
  change (UnpackedFloat.unpack Format.binary64 x.toBits.toBitVec).isFinite = true ↔ _
  simp only [UnpackedFloat.unpack]
  split_ifs <;> simp_all [UnpackedFloat.isFinite]

theorem isNaN_iff : x.isNaN = true ↔ infinityBits < magnitude x := by
  have bounded := magnitude_lt x
  have exponent := toNat_unpackExponent x
  have fraction := toNat_unpackMantissa x
  have largest : @unpackExponent Format.binary64 x.toBits.toBitVec = -1#_ ↔
      magnitude x / 2 ^ 52 = 2047 := by
    rw [← BitVec.toNat_inj, exponent]
    rfl
  have whole : @unpackMantissa Format.binary64 x.toBits.toBitVec = 0#_ ↔
      magnitude x % 2 ^ 52 = 0 := by
    rw [← BitVec.toNat_inj, fraction]
    rfl
  change (UnpackedFloat.unpack Format.binary64 x.toBits.toBitVec).isNaN = true ↔ _
  simp only [UnpackedFloat.unpack, largest, whole, infinityBits]
  split_ifs <;> simp only [UnpackedFloat.isNaN, Bool.false_eq_true, false_iff, true_iff] <;> omega

theorem isNaN_of_isFinite (finite : x.isFinite = true) : x.isNaN = false := by
  simp only [Float.isFinite, Float.isNaN, Float.Model.isFinite, Float.Model.isNaN] at finite ⊢
  generalize x.toModel.unpack = unpacked at finite ⊢
  cases unpacked <;> simp_all [UnpackedFloat.isFinite, UnpackedFloat.isNaN]

end PolishPlotter.Binary64
