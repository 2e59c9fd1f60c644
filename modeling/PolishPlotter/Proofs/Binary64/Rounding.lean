import Mathlib
import PolishPlotter.Proofs.Binary64.Nearest

set_option autoImplicit false

namespace PolishPlotter.Binary64

open Float.Model Float.Model.UnpackedFloat

section Residue

variable {em : ExtendedMantissa} {num den : Nat}

/-- The whole part of a quotient, with a bit for a rest of at least a half and a bit for a rest that
is neither nothing nor a half. -/
structure Represents (em : ExtendedMantissa) (num den : Nat) : Prop where
  whole : em.mantissa = num / den
  half : em.roundBit = true ↔ den ≤ 2 * (num % den)
  other : em.stickyBit = true ↔ 2 * (num % den) ≠ 0 ∧ 2 * (num % den) ≠ den

theorem represents_exact (m : Nat) :
    Represents (ExtendedMantissa.ofMantissaAndAccuracy m .exact) m 1 := by
  constructor <;> simp [ExtendedMantissa.ofMantissaAndAccuracy, Nat.mod_one]

namespace Represents

theorem roundedMantissa (represents : Represents em num den) (given : 0 < den) :
    em.roundedMantissa = roundEven num den := by
  have rest := Nat.mod_lt num given
  obtain ⟨whole, half, other⟩ := represents
  obtain ⟨m, roundBit, stickyBit⟩ := em
  cases roundBit <;> cases stickyBit <;>
    simp only [ExtendedMantissa.roundedMantissa, ExtendedMantissa.accuracy,
      Accuracy.roundToNearestEven, roundEven, Bool.false_eq_true, false_iff, true_iff]
      at whole half other ⊢ <;>
    split_ifs <;> omega

theorem shiftRightOne (represents : Represents em num den) (given : 0 < den) :
    Represents em.shiftRightOne num (den * 2) := by
  have rest := Nat.mod_lt num given
  obtain ⟨whole, half, other⟩ := represents
  have carried : em.mantissa % 2 = 0 ∧ num % (den * 2) = num % den ∨
      em.mantissa % 2 = 1 ∧ num % (den * 2) = num % den + den := by
    rw [Nat.mod_mul, ← whole]
    rcases Nat.mod_two_eq_zero_or_one em.mantissa with even | odd
    · simp [even]
    · simp [odd]
  constructor
  · simp only [ExtendedMantissa.shiftRightOne, whole, Nat.div_div_eq_div_mul]
  · simp only [ExtendedMantissa.shiftRightOne, bne_iff_ne]
    omega
  · simp only [ExtendedMantissa.shiftRightOne, Bool.or_eq_true, half, other]
    omega

theorem shiftRight (represents : Represents em num den) (given : 0 < den) (k : Nat) :
    Represents (em >>> k) num (den * 2 ^ k) := by
  change Represents (k.repeat ExtendedMantissa.shiftRightOne em) num (den * 2 ^ k)
  induction k with
  | zero => simpa [Nat.repeat] using represents
  | succ k shifted =>
    rw [Nat.pow_succ, ← Nat.mul_assoc]
    exact shifted.shiftRightOne (by positivity)

end Represents

end Residue

section Packing

variable {sign : Sign} {m r s k : Nat}

structure Canonical (m s : Nat) : Prop where
  fits : m < 2 ^ 53
  full : 0 < s → 2 ^ 52 ≤ m

theorem toNat_packComponents (sign : Sign) (exponent : BitVec 11) (m : BitVec 52) :
    (packComponents Format.binary64 sign exponent m).toNat =
      sign.toBitVec.toNat * 2 ^ 63 + (exponent.toNat * 2 ^ 52 + m.toNat) := by
  have bounded := m.isLt
  have fraction := exponent.isLt
  change (sign.toBitVec ++ exponent ++ m).toNat = _
  rw [BitVec.toNat_append, BitVec.toNat_append, ← Nat.shiftLeft_add_eq_or_of_lt bounded,
    ← Nat.shiftLeft_add_eq_or_of_lt fraction, Nat.shiftLeft_eq, Nat.shiftLeft_eq]
  omega

theorem toNat_pack (canonical : Canonical m s) (positive : 0 < m) :
    (UnpackedFloat.pack Format.binary64 (.finite sign m (s - 1074) positive)).toNat =
      sign.toBitVec.toNat * 2 ^ 63 + min (s * 2 ^ 52 + m) infinityBits := by
  obtain ⟨fits, full⟩ := canonical
  have biased : ((s : Int) - 1074 + Format.binary64.exponentBias +
      Format.binary64.mantissaBitsWithoutImplicit).toNat = s + 1 := by
    change ((s : Int) - 1074 + 1023 + 52).toNat = s + 1
    omega
  simp only [UnpackedFloat.pack, biased]
  by_cases large : 2 ^ 11 ≤ s + 1 + 1
  · have most := full (by omega)
    have beyond : infinityBits ≤ s * 2 ^ 52 + m := by
      simp only [infinityBits]
      omega
    rw [if_pos large, packedInfinity, toNat_packComponents, Nat.min_eq_right beyond]
    rfl
  · have finite : s * 2 ^ 52 + m ≤ infinityBits := by
      simp only [infinityBits]
      omega
    have log : m.log2 + 1 = Format.binary64.mantissaBits ↔ 2 ^ 52 ≤ m := by
      rw [← Nat.le_log2 positive.ne']
      have short := (Nat.log2_lt positive.ne').mpr fits
      change m.log2 + 1 = 53 ↔ 52 ≤ m.log2
      omega
    rw [if_neg large, Nat.min_eq_left finite]
    by_cases normal : 2 ^ 52 ≤ m
    · rw [if_pos (log.mpr normal), toNat_packComponents, BitVec.toNat_ofNat, BitVec.toNat_ofNat]
      omega
    · rw [if_neg (normal ∘ log.mp), toNat_packComponents, BitVec.toNat_ofNat, BitVec.toNat_ofNat]
      omega

theorem log2_mul_two_pow (positive : 0 < m) (k : Nat) : (m * 2 ^ k).log2 = m.log2 + k := by
  have nonzero : m ≠ 0 := positive.ne'
  have below := Nat.log2_self_le nonzero
  have above := @Nat.lt_log2_self m
  rw [Nat.log2_eq_iff (by positivity), Nat.pow_add, Nat.add_right_comm, Nat.pow_add]
  exact ⟨Nat.mul_le_mul_right _ below, Nat.mul_lt_mul_of_pos_right above (by positivity)⟩

def fullShift (m : Nat) (j : Int) : Nat := (m.log2 + j - 52).toNat

theorem targetExponent_eq (m : Nat) (j : Int) :
    Format.binary64.targetExponent (totalExponent m (j - 1074)) = fullShift m j - 1074 := by
  change max ((m.log2 : Int) + 1 + (j - 1074) - 53) (-1074) = _
  simp only [fullShift]
  omega

theorem shiftToTargetExponent_eq {j : Int} (enough : j ≤ fullShift m j) (accuracy : Accuracy) :
    shiftToTargetExponent Format.binary64 m (j - 1074) accuracy =
      (ExtendedMantissa.ofMantissaAndAccuracy m accuracy >>> (fullShift m j - j).toNat,
        (fullShift m j : Int) - 1074) := by
  have amount : ((fullShift m j : Int) - 1074 - (j - 1074)).toNat = (fullShift m j - j).toNat := by
    omega
  simp only [shiftToTargetExponent, shiftToExponent, targetExponent_eq, amount]
  congr 1
  omega

-- A mantissa that was rounded up to `2 ^ 53` loses one more bit, a zero.
theorem shiftToTargetExponent_rounded (bounded : r ≤ 2 ^ 53) (full : 0 < s → 2 ^ 52 ≤ r) :
    ∃ (em : ExtendedMantissa) (t : Nat),
      shiftToTargetExponent Format.binary64 r (s - 1074) .exact = (em, (t : Int) - 1074) ∧
      Canonical em.mantissa t ∧ t * 2 ^ 52 + em.mantissa = s * 2 ^ 52 + r := by
  by_cases carried : r = 2 ^ 53
  · subst carried
    have next : fullShift (2 ^ 53) s = s + 1 := by
      rw [fullShift, Nat.log2_two_pow]
      omega
    have amount : (((s + 1 : Nat) : Int) - s).toNat = 1 := by omega
    have shifted := @shiftToTargetExponent_eq (2 ^ 53) s (by omega) .exact
    rw [next, amount] at shifted
    refine ⟨_, _, shifted, ⟨by decide, fun _ => by decide⟩, ?_⟩
    change (s + 1) * 2 ^ 52 + 2 ^ 52 = s * 2 ^ 52 + 2 ^ 53
    ring
  · have fits : r < 2 ^ 53 := Nat.lt_of_le_of_ne bounded carried
    have same : fullShift r s = s := by
      by_cases zero : r = 0
      · have none : s = 0 := by omega
        simp [fullShift, zero, none]
      · have short := (Nat.log2_lt zero).mpr fits
        have long := fun most => (Nat.le_log2 zero).mpr (full most)
        simp only [fullShift]
        omega
    have shifted := @shiftToTargetExponent_eq r s (by omega) .exact
    rw [same, Int.sub_self] at shifted
    exact ⟨_, _, shifted, ⟨fits, full⟩, rfl⟩

section Dropping

variable {num den : Nat} {j : Int} {accuracy : Accuracy}

theorem log2_scaled (given : 0 < den) (enough : j ≤ fullShift (num / den) j) :
    (num * 2 ^ j.toNat / (den * 2 ^ (-j).toNat)).log2 - 52 = fullShift (num / den) j := by
  rcases Int.eq_nat_or_neg j with ⟨k, rfl | rfl⟩
  · have none : (-(k : Int)).toNat = 0 := by omega
    rw [none, Nat.pow_zero, Nat.mul_one, Int.toNat_natCast]
    by_cases zero : num / den = 0
    · have same : k = 0 := by
        simp only [fullShift, zero, Nat.log2_zero] at enough
        omega
      subst same
      simp [fullShift, zero]
    · have below := (Nat.le_div_iff_mul_le given).mp (Nat.log2_self_le zero)
      have above := (Nat.div_lt_iff_lt_mul given).mp (@Nat.lt_log2_self (num / den))
      have low : (num / den).log2 + k ≤ (num * 2 ^ k / den).log2 := le_log2_div given (by
        rw [Nat.pow_add, Nat.mul_right_comm]
        exact Nat.mul_le_mul_right _ below)
      have high : (num * 2 ^ k / den).log2 < (num / den).log2 + 1 + k :=
        log2_div_lt (by omega) given (by
          rw [Nat.pow_add, Nat.mul_right_comm]
          exact Nat.mul_lt_mul_of_pos_right above (by positivity))
      simp only [fullShift]
      omega
  · have none : (-(k : Int)).toNat = 0 := by omega
    rw [none, neg_neg, Int.toNat_natCast, Nat.pow_zero, Nat.mul_one, ← Nat.div_div_eq_div_mul,
      Nat.log2_eq_log_two, Nat.log_div_base_pow, ← Nat.log2_eq_log_two, fullShift]
    omega

theorem roundEven_scaled (enough : j ≤ fullShift (num / den) j) :
    roundEven (num * 2 ^ j.toNat) (den * 2 ^ (-j).toNat * 2 ^ fullShift (num / den) j) =
      roundEven num (den * 2 ^ (fullShift (num / den) j - j).toNat) := by
  generalize fullShift (num / den) j = target at enough ⊢
  have split : (-j).toNat + target = (target - j).toNat + j.toNat := by omega
  rw [Nat.mul_assoc, ← Nat.pow_add, split, Nat.pow_add, ← Nat.mul_assoc,
    roundEven_mul_right (by positivity)]

theorem mantissa_ofMantissaAndAccuracy (m : Nat) (accuracy : Accuracy) :
    (ExtendedMantissa.ofMantissaAndAccuracy m accuracy).mantissa = m := by
  cases accuracy with
  | exact => rfl
  | inexact half => cases half <;> rfl

theorem toNat_pack_roundWithAccuracy (given : 0 < den)
    (represents : Represents (.ofMantissaAndAccuracy m accuracy) num den)
    (enough : j ≤ fullShift m j) :
    (UnpackedFloat.pack Format.binary64
      (roundWithAccuracy Format.binary64 sign m (j - 1074) accuracy)).toNat =
      sign.toBitVec.toNat * 2 ^ 63 + nearest (num * 2 ^ j.toNat) (den * 2 ^ (-j).toNat) := by
  obtain rfl : m = num / den := by
    rw [← represents.whole, mantissa_ofMantissaAndAccuracy]
  have positive : 0 < den * 2 ^ (-j).toNat := Nat.mul_pos given (by positivity)
  have whole := represents.shiftRight given (fullShift (num / den) j - j).toNat
  have rounded := whole.roundedMantissa (by positivity)
  have bounded := @roundEven_le_two_pow (num * 2 ^ j.toNat) (den * 2 ^ (-j).toNat) positive
  have full := @full_mantissa (num * 2 ^ j.toNat) (den * 2 ^ (-j).toNat) positive
  have near : nearest (num * 2 ^ j.toNat) (den * 2 ^ (-j).toNat) =
      min (fullShift (num / den) j * 2 ^ 52 +
        roundEven num (den * 2 ^ (fullShift (num / den) j - j).toNat)) infinityBits := by
    simp only [nearest, Nat.pow_eq]
    rw [log2_scaled given enough, roundEven_scaled enough]
  have binade := log2_scaled given enough
  rw [binade, roundEven_scaled enough] at bounded full
  obtain ⟨em, t, shifted, canonical, same⟩ :=
    @shiftToTargetExponent_rounded _ (fullShift (num / den) j) bounded
      (fun normal => full (by omega))
  rw [near, ← same]
  simp only [roundWithAccuracy, shiftToTargetExponent_eq enough, rounded, shifted]
  split_ifs with zero
  · have none : t = 0 := by
      have least := canonical.full
      omega
    rw [UnpackedFloat.pack, packedZero, toNat_packComponents, zero, none]
    rfl
  · exact toNat_pack canonical _

end Dropping

theorem toNat_pack_round (positive : 0 < m) (s : Nat) :
    (UnpackedFloat.pack Format.binary64
      (UnpackedFloat.round Format.binary64 sign m (s - 1074))).toNat =
      sign.toBitVec.toNat * 2 ^ 63 + nearest (m * 2 ^ s) 1 := by
  -- A mantissa that is too short gets `d` zeros, and `d` is zero for any other.
  obtain ⟨d, amount⟩ : ∃ d, d = s - fullShift m s := ⟨_, rfl⟩
  have padded : decreaseExponent m (s - 1074) (fullShift m s - 1074) =
      (m * 2 ^ d, ((s - d : Nat) : Int) - 1074) := by
    have count : ((s : Int) - 1074 - (fullShift m s - 1074)).toNat = d := by omega
    simp only [decreaseExponent, count, Nat.shiftLeft_eq]
    congr 1
    omega
  have enough : ((s - d : Nat) : Int) ≤ fullShift (m * 2 ^ d) (s - d : Nat) := by
    simp only [fullShift, log2_mul_two_pow positive] at amount ⊢
    omega
  have same : m * 2 ^ d * 2 ^ (s - d) = m * 2 ^ s := by
    rw [Nat.mul_assoc, ← Nat.pow_add, Nat.add_sub_cancel' (by omega)]
  have packed := @toNat_pack_roundWithAccuracy sign _ _ _ _ _ Nat.one_pos
    (represents_exact (m * 2 ^ d)) enough
  have none : (-((s - d : Nat) : Int)).toNat = 0 := by omega
  rw [none, Int.toNat_natCast, same] at packed
  simp only [UnpackedFloat.round, targetExponent_eq, padded]
  exact packed

end Packing

end PolishPlotter.Binary64
