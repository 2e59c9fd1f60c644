import PolishPlotter.Proofs.Binary64.Nan

set_option autoImplicit false

namespace PolishPlotter.Binary64

open Float.Model Float.Model.UnpackedFloat

variable {u v : UnpackedFloat} {a b : Int} {x y : Float} {den m : Nat}

section Product

theorem apply_mul (sign other : Sign) (a b : Int) :
    (sign * other).apply (a * b) = sign.apply a * other.apply b := by
  cases sign <;> cases other
  · exact (Int.neg_mul_neg a b).symm
  · exact (Int.neg_mul a b).symm
  · exact (Int.mul_neg a b).symm
  · rfl

theorem Holds.value_pack_mul (left : Holds u a) (right : Holds v b) :
    value (.ofModel (.pack (UnpackedFloat.mul Format.binary64 u v))) =
      quotient (a * b) unitsPerOne := by
  cases left with
  | zero sign =>
    rw [Int.zero_mul, quotient_zero]
    cases right <;> exact value_packedZero _
  | @finite sign m s e _ positive exponent canonical _ whole =>
    cases right with
    | zero other =>
      rw [Int.mul_zero, quotient_zero]
      exact value_packedZero _
    | @finite other n t f _ more place standard _ same =>
      have place' : e + f = ((s + t : Nat) : Int) - 1074 - 1074 := by omega
      have enough : ((s + t : Nat) : Int) - 1074 ≤
          fullShift (m * n) (((s + t : Nat) : Int) - 1074) := by
        -- A product with a full mantissa among its factors has enough bits.
        have wide : 0 < s + t → 52 ≤ (m * n).log2 := by
          intro shifted
          have one : 2 ^ 52 ≤ m ∨ 2 ^ 52 ≤ n := by
            rcases Nat.eq_zero_or_pos s with none | some
            · exact .inr (standard.full (by omega))
            · exact .inl (canonical.full some)
          refine (Nat.le_log2 (Nat.mul_pos positive more).ne').mpr ?_
          rcases one with first | second
          · exact first.trans (Nat.le_mul_of_pos_right m more)
          · exact second.trans (Nat.le_mul_of_pos_left n positive)
        simp only [fullShift]
        omega
      have packed := @toNat_pack_roundWithAccuracy (sign * other) _ _ _ _ _ Nat.one_pos
        (represents_exact (m * n)) enough
      have scaled : nearest (m * n * 2 ^ (((s + t : Nat) : Int) - 1074).toNat)
          (1 * 2 ^ (-(((s + t : Nat) : Int) - 1074)).toNat) =
          nearest (m * 2 ^ s * (n * 2 ^ t)) unitsPerOne := by
        have moved : m * 2 ^ s * (n * 2 ^ t) = m * n * 2 ^ (s + t) := by ring
        rw [moved, unitsPerOne_eq, ← Nat.one_mul (2 ^ 1074)]
        exact nearest_two_pow (by omega) (m * n) 1
      have small : nearest (m * 2 ^ s * (n * 2 ^ t)) unitsPerOne < 2 ^ 63 :=
        Nat.lt_of_le_of_lt (Nat.min_le_right _ _) (by decide)
      rw [scaled] at packed
      simp only [UnpackedFloat.mul, place']
      rw [PolishPlotter.Binary64.value_pack small packed, whole, same, ← apply_mul,
        ← Nat.cast_mul, quotient_apply (by decide +kernel)]

theorem value_mul (left : x.isFinite = true) (right : y.isFinite = true) :
    value (x * y) = quotient (value x * value y) unitsPerOne :=
  (holds_unpack left).value_pack_mul (holds_unpack right)

end Product

section Division

theorem represents_fraction (given : 0 < den) (num : Nat) :
    Represents (.ofMantissaAndAccuracy (num / den) (accuracyOfFraction (num % den) den)) num den := by
  have rest := Nat.mod_lt num given
  unfold accuracyOfFraction
  split_ifs with exact
  · constructor <;> simp only [ExtendedMantissa.ofMantissaAndAccuracy, Bool.false_eq_true,
      false_iff] <;> omega
  · rcases Nat.lt_trichotomy (2 * (num % den)) den with less | half | more
    · rw [compare_lt_iff_lt.mpr less]
      constructor <;> simp only [ExtendedMantissa.ofMantissaAndAccuracy, Bool.false_eq_true,
        false_iff, true_iff] <;> omega
    · rw [compare_eq_iff_eq.mpr half]
      constructor <;> simp only [ExtendedMantissa.ofMantissaAndAccuracy, Bool.false_eq_true,
        false_iff, true_iff] <;> omega
    · rw [compare_gt_iff_gt.mpr more]
      constructor <;> simp only [ExtendedMantissa.ofMantissaAndAccuracy, true_iff] <;> omega

theorem apply_div_positive (sign : Sign) : sign / .positive = sign := by cases sign <;> rfl

-- The dividend gets as many zeros as the quotient needs to have a full mantissa.
theorem log2_quotient {n d : Nat} (positive : 0 < m) (given : 0 < n)
    (shifted : n.log2 + 53 ≤ m.log2 + d) : 52 ≤ (m <<< d / n).log2 := by
  have low := Nat.log2_self_le positive.ne'
  have high := @Nat.lt_log2_self n
  rw [Nat.shiftLeft_eq]
  refine le_log2_div given ?_
  calc 2 ^ 52 * n ≤ 2 ^ 52 * 2 ^ (n.log2 + 1) := Nat.mul_le_mul_left _ high.le
    _ = 2 ^ (n.log2 + 53) := by ring
    _ ≤ 2 ^ (m.log2 + d) := Nat.pow_le_pow_right (by decide) shifted
    _ = 2 ^ m.log2 * 2 ^ d := Nat.pow_add ..
    _ ≤ m * 2 ^ d := Nat.mul_le_mul_right _ low

theorem Holds.value_pack_div (left : Holds u a) (right : Holds v b) (given : 0 < b) :
    value (.ofModel (.pack (UnpackedFloat.div Format.binary64 u v))) =
      quotient (a * unitsPerOne) b.toNat := by
  cases right with
  | zero => exact absurd given (Int.lt_irrefl 0)
  | @finite other n t f _ more place standard _ same =>
    cases other with
    | negative =>
      rw [same, Sign.apply] at given
      omega
    | positive =>
      rw [same, Sign.apply, Int.toNat_natCast]
      have divisor : 0 < n * 2 ^ t := by positivity
      cases left with
      | zero sign =>
        rw [Int.zero_mul, quotient_zero]
        exact value_packedZero _
      | @finite sign m s e _ positive exponent canonical _ whole =>
        -- The exponent of the quotient, and the number of zeros.
        obtain ⟨j, exponents⟩ : ∃ j : Int, j - 1074 = min (e - f)
            (Format.binary64.targetExponent (totalExponent m e - totalExponent n f)) :=
          ⟨min (e - f) _ + 1074, Int.add_sub_cancel ..⟩
        obtain ⟨d, zeros⟩ : ∃ d : Nat, d = (e - f - (j - 1074)).toNat := ⟨_, rfl⟩
        have target : Format.binary64.targetExponent (totalExponent m e - totalExponent n f) =
            max ((m.log2 : Int) + 1 + e - (n.log2 + 1 + f) - 53) (-1074) := rfl
        have core : divCore Format.binary64 m e n f =
            (m <<< d / n, j - 1074, accuracyOfFraction (m <<< d % n) n) := by
          simp only [divCore, ← exponents, ← zeros]
        have enough : j ≤ fullShift (m <<< d / n) j := by
          by_cases least : j ≤ 0
          · exact least.trans (Int.natCast_nonneg _)
          · have wide := @log2_quotient m n d positive more (by omega)
            simp only [fullShift]
            omega
        have packed := @toNat_pack_roundWithAccuracy (sign / .positive) _ _ _ _ _ more
          (represents_fraction more (m <<< d)) enough
        have scaled : nearest (m <<< d * 2 ^ j.toNat) (n * 2 ^ (-j).toNat) =
            nearest (m * 2 ^ s * unitsPerOne) (n * 2 ^ t) := by
          rw [Nat.shiftLeft_eq, Nat.mul_assoc, ← Nat.pow_add, Nat.mul_assoc m, unitsPerOne_eq,
            ← Nat.pow_add]
          exact nearest_two_pow (by omega) m n
        have small : nearest (m * 2 ^ s * unitsPerOne) (n * 2 ^ t) < 2 ^ 63 :=
          Nat.lt_of_le_of_lt (Nat.min_le_right _ _) (by decide)
        have product : sign.apply (m * 2 ^ s : Nat) * unitsPerOne =
            sign.apply (m * 2 ^ s * unitsPerOne : Nat) := by
          cases sign with
          | negative => rw [Sign.apply, Sign.apply, Int.neg_mul, ← Nat.cast_mul]
          | positive => rw [Sign.apply, Sign.apply, ← Nat.cast_mul]
        rw [scaled] at packed
        simp only [UnpackedFloat.div, core]
        rw [PolishPlotter.Binary64.value_pack small packed, whole, product,
          quotient_apply divisor, apply_div_positive]

theorem value_div (left : x.isFinite = true) (right : y.isFinite = true) (given : 0 < value y) :
    value (x / y) = quotient (value x * unitsPerOne) (value y).toNat :=
  (holds_unpack left).value_pack_div (holds_unpack right) given

end Division

end PolishPlotter.Binary64
