import PolishPlotter.Proofs.Binary64.Rounding

set_option autoImplicit false

namespace PolishPlotter.Binary64

open Float.Model Float.Model.UnpackedFloat

variable {n k : Int} {den m s t : Nat}

def quotient (n : Int) (den : Nat) : Int := n.sign * units (nearest n.natAbs den)

theorem quotient_zero (den : Nat) : quotient 0 den = 0 := by
  rw [quotient, Int.sign_zero, Int.zero_mul]

theorem quotient_neg (n : Int) (den : Nat) : quotient (-n) den = -quotient n den := by
  rw [quotient, quotient, Int.sign_neg, Int.natAbs_neg, Int.neg_mul]

theorem quotient_natCast (given : 0 < den) (m : Nat) :
    quotient m den = units (nearest m den) := by
  rcases Nat.eq_zero_or_pos m with rfl | positive
  · rw [Nat.cast_zero, quotient_zero, nearest_eq_zero given (Nat.zero_le _)]
    rfl
  · rw [quotient, Int.natAbs_natCast, Int.sign_eq_one_of_pos (Int.natCast_pos.mpr positive),
      Int.one_mul]

theorem quotient_apply (given : 0 < den) (sign : Sign) (m : Nat) :
    quotient (sign.apply m) den = sign.apply (units (nearest m den)) := by
  cases sign with
  | negative => rw [Sign.apply, quotient_neg, quotient_natCast given, Sign.apply]
  | positive => rw [Sign.apply, quotient_natCast given, Sign.apply]

theorem quotient_mul_right (given : 0 < m) (n : Int) (den : Nat) :
    quotient (n * m) (den * m) = quotient n den := by
  rw [quotient, quotient, Int.sign_mul, Int.natAbs_mul, Int.natAbs_natCast,
    nearest_mul_right given, Int.sign_eq_one_of_pos (Int.natCast_pos.mpr given), Int.mul_one]

theorem quotient_nonneg (given : 0 < den) (least : 0 ≤ n) : 0 ≤ quotient n den := by
  rw [← Int.toNat_of_nonneg least, quotient_natCast given]
  exact Int.natCast_nonneg _

theorem quotient_mono (given : 0 < den) (le : n ≤ k) : quotient n den ≤ quotient k den := by
  have upward {n k : Int} (least : 0 ≤ n) (le : n ≤ k) : quotient n den ≤ quotient k den := by
    rw [← Int.toNat_of_nonneg least, ← Int.toNat_of_nonneg (least.trans le),
      quotient_natCast given, quotient_natCast given]
    exact Int.ofNat_le.mpr (units_mono (nearest_mono given (Int.toNat_le_toNat le)))
  rcases Int.le_total 0 n with positive | negative
  · exact upward positive le
  · rcases Int.le_total 0 k with above | below
    · have low := quotient_nonneg given (Int.neg_nonneg_of_nonpos negative)
      have high := quotient_nonneg given above
      rw [quotient_neg] at low
      omega
    · have mirrored := upward (Int.neg_nonneg_of_nonpos below) (Int.neg_le_neg le)
      rw [quotient_neg, quotient_neg] at mirrored
      omega

theorem quotient_le_quotient {p q : Nat} (given : 0 < p) (also : 0 < q)
    (le : n * q ≤ k * p) : quotient n p ≤ quotient k q := by
  have whole := quotient_mono (Nat.mul_pos given also) le
  rwa [quotient_mul_right also, Nat.mul_comm p, quotient_mul_right given] at whole

-- The largest finite number.
def largest : Int := units (infinityBits - 1)

theorem quotient_error_of_nonneg (given : 0 < den) (least : 0 ≤ n) (bounded : n ≤ largest * den) :
    2 ^ 53 * |quotient n den * den - n| ≤ n + 2 ^ 52 * den := by
  obtain ⟨m, rfl⟩ := Int.eq_ofNat_of_zero_le least
  have below : m ≤ units (infinityBits - 1) * den := by
    rw [largest] at bounded
    exact_mod_cast bounded
  have finite : nearest m den < infinityBits := by
    have most := nearest_mono given below
    have reduced := @nearest_mul_right (units (infinityBits - 1)) 1 den given
    rw [Nat.one_mul, nearest_units (by decide)] at reduced
    rw [reduced] at most
    exact Nat.lt_of_le_of_lt most (by decide)
  have error := nearest_ratio_error given finite
  rw [quotient_natCast given]
  generalize units (nearest m den) = r at error ⊢
  have size : |(r : Int) * den - m| = (r * den : Nat) - m ∨
      |(r : Int) * den - m| = m - (r * den : Nat) := by
    rw [← Nat.cast_mul]
    exact (abs_choice _).imp id (fun other => by omega)
  rcases size with same | same <;> rw [same] <;> omega

theorem quotient_error (given : 0 < den) (bounded : |n| ≤ largest * den) :
    2 ^ 53 * |quotient n den * den - n| ≤ |n| + 2 ^ 52 * den := by
  obtain ⟨low, high⟩ := abs_le.mp bounded
  rcases Int.le_total 0 n with positive | negative
  · rw [abs_of_nonneg positive]
    exact quotient_error_of_nonneg given positive high
  · have mirrored := @quotient_error_of_nonneg (-n) den given (by omega) (by omega)
    rwa [quotient_neg, Int.neg_mul, neg_sub_neg, abs_sub_comm,
      ← abs_of_nonpos negative] at mirrored

section Accuracy

def toRat (n : Int) : ℚ := n / unitsPerOne

theorem cast_unitsPerOne_pos : (0 : ℚ) < unitsPerOne := Nat.cast_pos.mpr unitsPerOne_pos

theorem toRat_add (n k : Int) : toRat (n + k) = toRat n + toRat k := by
  rw [toRat, Int.cast_add, add_div, toRat, toRat]

theorem toRat_sub (n k : Int) : toRat (n - k) = toRat n - toRat k := by
  rw [toRat, Int.cast_sub, sub_div, toRat, toRat]

theorem toRat_mul (n k : Int) : toRat (n * k) = toRat n * k := by
  rw [toRat, Int.cast_mul, toRat]
  ring

theorem toRat_units (k : Int) : toRat (k * unitsPerOne) = k := by
  rw [toRat, Int.cast_mul, Int.cast_natCast, mul_div_cancel_right₀ _ cast_unitsPerOne_pos.ne']

theorem toRat_le_toRat : toRat n ≤ toRat k ↔ n ≤ k := by
  rw [toRat, toRat, div_le_div_iff_of_pos_right cast_unitsPerOne_pos, Int.cast_le]

theorem toRat_lt_toRat : toRat n < toRat k ↔ n < k := by
  rw [toRat, toRat, div_lt_div_iff_of_pos_right cast_unitsPerOne_pos, Int.cast_lt]

theorem abs_toRat (n : Int) : |toRat n| = toRat |n| := by
  rw [toRat, abs_div, abs_of_pos cast_unitsPerOne_pos, toRat, Int.cast_abs]

theorem abs_toRat_le (below : |n| ≤ k * unitsPerOne) : |toRat n| ≤ k := by
  rw [abs_toRat, ← toRat_units k]
  exact toRat_le_toRat.mpr below

theorem abs_toRat_le_of_between {x : Int} {bound : ℚ} (low : min n k ≤ x) (high : x ≤ max n k)
    (first : |toRat n| ≤ bound) (last : |toRat k| ≤ bound) : |toRat x| ≤ bound := by
  have sizes : |x| ≤ |n| ∨ |x| ≤ |k| := by
    rcases Int.le_total n k with up | down
    · rw [min_eq_left up] at low
      rw [max_eq_right up] at high
      exact le_max_iff.mp (abs_le_max_abs_abs low high)
    · rw [min_eq_right down] at low
      rw [max_eq_left down] at high
      exact (le_max_iff.mp (abs_le_max_abs_abs low high)).symm
  rw [abs_toRat] at first last ⊢
  rcases sizes with less | less
  · exact (toRat_le_toRat.mpr less).trans first
  · exact (toRat_le_toRat.mpr less).trans last

theorem abs_le_largest (size : |toRat n| ≤ 2 ^ 25) : |n| ≤ largest := by
  have most : (2 ^ 25 : Int) * unitsPerOne ≤ largest := by decide +kernel
  have below : toRat |n| ≤ toRat (2 ^ 25 * unitsPerOne) := by
    rw [← abs_toRat, toRat_units]
    exact size.trans_eq (by norm_num)
  exact (toRat_le_toRat.mp below).trans most

theorem two_pow_le_cast_unitsPerOne : (2 ^ 52 : ℚ) ≤ unitsPerOne := by
  have whole : 2 ^ 52 ≤ unitsPerOne := by decide +kernel
  generalize unitsPerOne = unit at whole ⊢
  exact_mod_cast whole

-- The error in units becomes one of the ratio itself.
theorem close_of_error {unit d q m bound : ℚ} (room : 0 < unit) (divisor : 0 < d)
    (wide : 2 ^ 52 ≤ unit) (size : |m / unit / d| ≤ bound)
    (error : 2 ^ 53 * |q * d - m| ≤ |m| + 2 ^ 52 * d) :
    |q / unit - m / unit / d| ≤ (bound + 1) / 2 ^ 53 := by
  have scale : 0 < unit * d := mul_pos room divisor
  have scaled : |m| ≤ bound * (unit * d) := by
    rwa [div_div, abs_div, abs_of_pos scale, div_le_iff₀ scale] at size
  have apart : q / unit - m / unit / d = (q * d - m) / (unit * d) := by
    field_simp
  have rest : 2 ^ 52 * d ≤ unit * d := mul_le_mul_of_nonneg_right wide divisor.le
  rw [apart, abs_div, abs_of_pos scale, div_le_div_iff₀ scale (by norm_num)]
  linarith

theorem quotient_close {bound : ℚ} (given : 0 < den) (size : |toRat n / den| ≤ bound)
    (small : bound ≤ 2 ^ 64) :
    |toRat (quotient n den) - toRat n / den| ≤ (bound + 1) / 2 ^ 53 := by
  have divisor : (0 : ℚ) < den := Nat.cast_pos.mpr given
  have most : (2 ^ 64 * unitsPerOne : Int) ≤ largest := by decide +kernel
  have below : toRat |n| ≤ toRat (2 ^ 64 * den * unitsPerOne) := by
    rw [toRat_units, ← abs_toRat, Int.cast_mul, Int.cast_natCast]
    rw [abs_div, abs_of_pos divisor, div_le_iff₀ divisor] at size
    exact size.trans (mul_le_mul_of_nonneg_right (by exact_mod_cast small) divisor.le)
  have bounded : |n| ≤ largest * den := by
    rw [toRat_le_toRat, Int.mul_right_comm] at below
    exact below.trans (Int.mul_le_mul_of_nonneg_right most (Int.natCast_nonneg den))
  have error : (2 ^ 53 * |quotient n den * den - n| : ℚ) ≤ |n| + 2 ^ 52 * den := by
    exact_mod_cast quotient_error given bounded
  exact close_of_error cast_unitsPerOne_pos divisor two_pow_le_cast_unitsPerOne size
    (by exact_mod_cast error)

theorem product_close {t : Int} {bound : ℚ} (size : |toRat n * toRat t| ≤ bound)
    (small : bound ≤ 2 ^ 64) :
    |toRat (quotient (n * t) unitsPerOne) - toRat n * toRat t| ≤ (bound + 1) / 2 ^ 53 := by
  have product : toRat (n * t) / unitsPerOne = toRat n * toRat t := by
    rw [toRat_mul, mul_div_assoc]
    rfl
  rw [← product] at size ⊢
  exact quotient_close unitsPerOne_pos size small

end Accuracy

theorem nearest_two_pow {p q : Nat} (same : s + q = p + t) (m n : Nat) :
    nearest (m * 2 ^ s) (n * 2 ^ t) = nearest (m * 2 ^ p) (n * 2 ^ q) := by
  rw [← @nearest_mul_right (m * 2 ^ s) (n * 2 ^ t) (2 ^ q) (by positivity),
    ← @nearest_mul_right (m * 2 ^ p) (n * 2 ^ q) (2 ^ t) (by positivity)]
  simp only [Nat.mul_assoc, ← Nat.pow_add, same, Nat.add_comm q t]

end PolishPlotter.Binary64
