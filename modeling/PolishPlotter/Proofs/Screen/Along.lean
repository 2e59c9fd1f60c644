import PolishPlotter.Proofs.Screen.Cells

set_option autoImplicit false

namespace PolishPlotter

namespace Binary64

variable {d n t u x : Int}

-- A fraction of `1 - 2 ^ -17` leaves more room than two roundings use up.
theorem le_of_roundings (room : 0 < u) (large : 2 ^ 53 * u ≤ n * u)
    (span : 2 ^ 53 * d ≤ (2 ^ 53 + 1) * n) (short : 2 ^ 17 * t ≤ (2 ^ 17 - 1) * u)
    (least : 0 ≤ d) (product : 2 ^ 53 * (x * u) ≤ (2 ^ 53 + 1) * (d * t) + 2 ^ 52 * u) :
    x ≤ n := by
  have spans := Int.mul_le_mul_of_nonneg_right span room.le
  have parts := Int.mul_le_mul_of_nonneg_left short least
  refine le_of_mul_le_mul_right ?_ room
  linarith

-- The product of a rounded span and a fraction.
def part (n t : Int) : Int := quotient (rounded n * t) unitsPerOne

theorem part_neg (n t : Int) : part (-n) t = -part n t := by
  rw [part, rounded_neg, Int.neg_mul, quotient_neg, part]

theorem part_nonneg (least : 0 ≤ n) (given : 0 ≤ t) : 0 ≤ part n t :=
  quotient_nonneg unitsPerOne_pos (Int.mul_nonneg (quotient_nonneg Nat.one_pos least) given)

section Part

variable (given : 0 ≤ t) (short : 2 ^ 17 * t ≤ (2 ^ 17 - 1) * unitsPerOne)

include given short

theorem part_le (least : 0 ≤ n) (bounded : n ≤ largest) : part n t ≤ n := by
  have room : (0 : Int) < unitsPerOne := Int.natCast_pos.mpr unitsPerOne_pos
  have below : t ≤ unitsPerOne := by linarith
  have span := rounded_error_of_nonneg least bounded
  have low := neg_abs_le (rounded n - n)
  have high := le_abs_self (rounded n - n)
  have positive : 0 ≤ rounded n := quotient_nonneg Nat.one_pos least
  have most : rounded n * t ≤ rounded n * unitsPerOne :=
    Int.mul_le_mul_of_nonneg_left below positive
  rcases lt_or_ge n (2 ^ 53) with small | large
  · have whole : rounded n = n := by omega
    have scaled := quotient_mul_right unitsPerOne_pos (rounded n) 1
    rw [Nat.one_mul] at scaled
    have bound := quotient_mono unitsPerOne_pos most
    rw [scaled, whole] at bound
    rw [part, whole]
    exact bound.trans_eq whole
  · have reached : |rounded n| ≤ largest := abs_rounded_le ((abs_of_nonneg least).trans_le bounded)
    have product := Int.mul_nonneg positive given
    have fits : |rounded n * t| ≤ largest * unitsPerOne := by
      rw [abs_of_nonneg product]
      rw [abs_of_nonneg positive] at reached
      exact most.trans (Int.mul_le_mul_of_nonneg_right reached room.le)
    have error := quotient_error unitsPerOne_pos fits
    rw [abs_of_nonneg product] at error
    have above := le_abs_self (part n t * unitsPerOne - rounded n * t)
    have gap := Int.mul_le_mul_of_nonneg_right large room.le
    rw [part] at above ⊢
    generalize (unitsPerOne : Int) = u at room short gap error above ⊢
    refine le_of_roundings room gap ?_ short positive ?_
    · linarith
    · linarith

theorem part_between (bounded : |n| ≤ largest) : min 0 n ≤ part n t ∧ part n t ≤ max 0 n := by
  obtain ⟨low, high⟩ := abs_le.mp bounded
  rcases Int.le_total 0 n with positive | negative
  · have above := part_le given short positive high
    have below := part_nonneg positive given
    omega
  · have above := @part_le (-n) t given short (by omega) (by omega)
    have below := @part_nonneg (-n) t (by omega) given
    rw [part_neg] at above below
    omega

end Part

end Binary64

namespace Screen.Canvas

open Binary64

variable {a b : Float} {steps i : Nat}

def fraction (steps i : Nat) : Float := i.toUInt64.toFloat / steps.toUInt64.toFloat

def along (a b : Float) (steps i : Nat) : Float := a + (b - a) * fraction steps i

section Fraction

theorem value_fraction (given : 0 < steps) (few : steps ≤ 2 ^ 53) (inside : i < steps) :
    (fraction steps i).isFinite = true ∧
      value (fraction steps i) = quotient (i * unitsPerOne) steps := by
  obtain ⟨finite, divided⟩ := value_div_count (isFinite_count i) given few
  exact ⟨finite, divided.trans (by rw [value_count (by omega)])⟩

theorem fraction_short (given : 0 < steps) (few : steps ≤ 2 ^ 17) (inside : i < steps) :
    0 ≤ value (fraction steps i) ∧
      2 ^ 17 * value (fraction steps i) ≤ (2 ^ 17 - 1) * unitsPerOne := by
  have least : 0 ≤ (i : Int) * unitsPerOne :=
    Int.mul_nonneg (Int.natCast_nonneg i) (Int.natCast_nonneg unitsPerOne)
  rw [(value_fraction given (by omega) inside).2]
  refine ⟨quotient_nonneg given least, ?_⟩
  have last : 2 ^ 17 * quotient ((2 ^ 17 - 1) * unitsPerOne) (2 ^ 17) =
      (2 ^ 17 - 1) * unitsPerOne := by
    decide +kernel
  have short : (i : Int) * (2 ^ 17 : Nat) ≤ (2 ^ 17 - 1) * steps := by
    push_cast
    omega
  have scaled := Int.mul_le_mul_of_nonneg_right short (Int.natCast_nonneg unitsPerOne)
  have bound := quotient_le_quotient given (by decide)
    ((Int.mul_right_comm _ _ _).trans_le (scaled.trans_eq (Int.mul_right_comm _ _ _)))
  rw [← last]
  exact Int.mul_le_mul_of_nonneg_left bound (by decide)

end Fraction

section Between

variable (left : a.isFinite = true) (right : b.isFinite = true)
  (span : |value b - value a| ≤ largest) (given : 0 < steps) (few : steps ≤ 2 ^ 17)
  (inside : i < steps)

include left right span given few inside

theorem value_along :
    (along a b steps i).isNaN = false ∧
      value (along a b steps i) =
        rounded (value a + part (value b - value a) (value (fraction steps i))) := by
  obtain ⟨finite, -⟩ := value_fraction given (by omega) inside
  obtain ⟨least, short⟩ := fraction_short given few inside
  have difference : (b - a).isFinite = true := by
    refine isFinite_of_abs_value_le ?_
    rw [value_sub right left]
    exact abs_rounded_le span
  have product : value ((b - a) * fraction steps i) =
      part (value b - value a) (value (fraction steps i)) := by
    rw [value_mul difference finite, value_sub right left, part]
  have bounded : ((b - a) * fraction steps i).isFinite = true := by
    refine isFinite_of_abs_value_le ?_
    obtain ⟨low, high⟩ := part_between least short span
    rw [abs_le] at span
    rw [product, abs_le]
    omega
  constructor
  · rw [along, isNaN_add left]
    exact isNaN_of_isFinite bounded
  · rw [along, value_add left bounded, product]

theorem along_between :
    min (value a) (value b) ≤ value (along a b steps i) ∧
      value (along a b steps i) ≤ max (value a) (value b) := by
  obtain ⟨least, short⟩ := fraction_short given few inside
  obtain ⟨-, whole⟩ := value_along left right span given few inside
  obtain ⟨low, high⟩ := part_between least short span
  have exactLeft := rounded_value left
  have exactRight := rounded_value right
  generalize part (value b - value a) (value (fraction steps i)) = p at low high whole
  rw [whole]
  rcases Int.le_total (value a) (value b) with up | down
  · have below := @rounded_mono (value a) (value a + p) (by omega)
    have above := @rounded_mono (value a + p) (value b) (by omega)
    omega
  · have below := @rounded_mono (value b) (value a + p) (by omega)
    have above := @rounded_mono (value a + p) (value a) (by omega)
    omega

theorem isFinite_along : (along a b steps i).isFinite = true := by
  obtain ⟨low, high⟩ := along_between left right span given few inside
  have first := abs_le.mp (abs_value_le_largest left)
  have last := abs_le.mp (abs_value_le_largest right)
  refine isFinite_of_abs_value_le (abs_le.mpr ?_)
  omega

end Between

section Accuracy

variable (finite : a.isFinite = true) (size : |toRat (value a)| ≤ 2 ^ 25) {rows : Nat}
  (given : 0 < rows) (few : rows ≤ screenHeight)

include finite size given few

theorem place_close :
    |toRat (value (place a screenHeight rows)) - toRat (value a) * rows / screenHeight| ≤
      1 / 2 ^ 25 := by
  have high : 0 < screenHeight := by decide
  have count : rows ≤ 240 := few
  have most : (rows : ℚ) ≤ 240 := by exact_mod_cast count
  have least : (0 : ℚ) ≤ rows := Nat.cast_nonneg rows
  have scale : (screenHeight : ℚ) = 240 := rfl
  have scaled : |toRat (value a) / screenHeight| ≤ 2 ^ 18 := by
    rw [abs_div, scale, abs_of_pos (by norm_num : (0 : ℚ) < 240), div_le_iff₀ (by norm_num)]
    linarith
  have first := quotient_close high scaled (by norm_num)
  have placed := @value_place a screenHeight rows finite high (by decide) (by omega)
  rw [placed]
  generalize quotient (value a) screenHeight = q at first
  have bounded : |toRat q * rows| ≤ (2 ^ 18 + 1) * 240 := by
    have near := (abs_sub_abs_le_abs_sub (toRat q) (toRat (value a) / screenHeight)).trans first
    rw [abs_mul, abs_of_nonneg least]
    exact mul_le_mul (by linarith) most least (by norm_num)
  have second := @rounded_close (q * rows) ((2 ^ 18 + 1) * 240)
  rw [toRat_mul, Int.cast_natCast] at second
  replace second := second bounded (by norm_num)
  have carried : |toRat q * rows - toRat (value a) / screenHeight * rows| ≤
      (2 ^ 18 + 1) / 2 ^ 53 * 240 := by
    rw [← sub_mul, abs_mul, abs_of_nonneg least]
    exact mul_le_mul first most least (by norm_num)
  rw [mul_div_right_comm]
  calc |toRat (rounded (q * rows)) - toRat (value a) / screenHeight * rows|
      ≤ ((2 ^ 18 + 1) * 240 + 1) / 2 ^ 53 + (2 ^ 18 + 1) / 2 ^ 53 * 240 :=
        (abs_sub_le _ (toRat q * rows) _).trans (add_le_add second carried)
    _ ≤ 1 / 2 ^ 25 := by norm_num

end Accuracy

section Step

variable (left : a.isFinite = true) (right : b.isFinite = true)
  (size : |toRat (value a)| ≤ 2 ^ 25) (span : |toRat (value b - value a)| ≤ 2 ^ 25)
  (given : 0 < steps) (few : steps ≤ 2 ^ 17) (inside : i < steps)

include left right size span given few inside

theorem along_close :
    |toRat (value (along a b steps i)) -
      (toRat (value a) + toRat (value b - value a) * (i / steps))| ≤ 1 / 2 ^ 24 := by
  have bounded := abs_le_largest span
  obtain ⟨-, whole⟩ := value_along left right bounded given few inside
  obtain ⟨-, divided⟩ := value_fraction given (by omega) inside
  have portion : |(i / steps : ℚ)| ≤ 1 := by
    rw [abs_of_nonneg (by positivity)]
    exact div_le_one_of_le₀ (Nat.cast_le.mpr inside.le) (Nat.cast_nonneg steps)
  have first : |toRat (value (fraction steps i)) - i / steps| ≤ (1 + 1) / 2 ^ 53 := by
    have close := @quotient_close (i * unitsPerOne) steps 1 given
    rw [← divided, toRat_units, Int.cast_natCast] at close
    exact close portion (by norm_num)
  have second := rounded_close span (by norm_num)
  rw [whole, part]
  generalize value (fraction steps i) = t at first
  generalize value a = m at size span second ⊢
  generalize value b - m = n at span second ⊢
  have taken : |toRat t| ≤ 1 + 1 := by
    have near := (abs_sub_abs_le_abs_sub (toRat t) (i / steps)).trans first
    linarith
  have spanned : |toRat (rounded n)| ≤ 2 ^ 25 + 1 := by
    have near := (abs_sub_abs_le_abs_sub (toRat (rounded n)) (toRat n)).trans second
    linarith
  have product : |toRat (rounded n) * toRat t| ≤ (2 ^ 25 + 1) * (1 + 1) := by
    rw [abs_mul]
    exact mul_le_mul spanned taken (abs_nonneg _) (by norm_num)
  have third := product_close product (by norm_num)
  generalize quotient (rounded n * t) unitsPerOne = p at third ⊢
  have sum : |toRat (m + p)| ≤ 2 ^ 27 := by
    have near := (abs_sub_abs_le_abs_sub (toRat p) (toRat (rounded n) * toRat t)).trans third
    rw [toRat_add]
    have total := abs_add_le (toRat m) (toRat p)
    linarith
  have fourth := rounded_close sum (by norm_num)
  rw [toRat_add] at fourth
  have scaled : |(toRat (rounded n) - toRat n) * toRat t| ≤ (2 ^ 25 + 1) / 2 ^ 53 * (1 + 1) := by
    rw [abs_mul]
    exact mul_le_mul second taken (abs_nonneg _) (by norm_num)
  have moved : |toRat n * (toRat t - i / steps)| ≤ 2 ^ 25 * ((1 + 1) / 2 ^ 53) := by
    rw [abs_mul]
    exact mul_le_mul span first (abs_nonneg _) (by norm_num)
  -- One error for each operation: the sum, the product, the difference and the fraction.
  have parts : toRat (rounded (m + p)) - (toRat m + toRat n * (i / steps)) =
      toRat (rounded (m + p)) - (toRat m + toRat p) + (toRat p - toRat (rounded n) * toRat t) +
        (toRat (rounded n) - toRat n) * toRat t + toRat n * (toRat t - i / steps) := by
    ring
  rw [parts]
  refine (abs_add_le _ _).trans ?_
  have three := abs_add_three (toRat (rounded (m + p)) - (toRat m + toRat p))
    (toRat p - toRat (rounded n) * toRat t) ((toRat (rounded n) - toRat n) * toRat t)
  linarith

def course (a b : Float) (rows steps i : Nat) : ℚ :=
  (toRat (value a) + toRat (value b - value a) * (i / steps)) * rows / screenHeight

theorem place_along_close {rows : Nat} (other : |toRat (value b)| ≤ 2 ^ 25) (positive : 0 < rows)
    (high : rows ≤ screenHeight) :
    |toRat (value (place (along a b steps i) screenHeight rows)) - course a b rows steps i| ≤
      1 / 2 ^ 23 := by
  have bounded := abs_le_largest span
  have finite := isFinite_along left right bounded given few inside
  obtain ⟨low, above⟩ := along_between left right bounded given few inside
  have between := abs_toRat_le_of_between low above size other
  have near := along_close left right size span given few inside
  have placed := place_close finite between positive high
  have room : (0 : ℚ) < screenHeight := Nat.cast_pos.mpr (by decide)
  have scaled : |toRat (value (along a b steps i)) * rows / screenHeight -
      course a b rows steps i| ≤ 1 / 2 ^ 24 := by
    have count : (rows : ℚ) / screenHeight ≤ 1 :=
      div_le_one_of_le₀ (Nat.cast_le.mpr high) room.le
    rw [course, ← sub_div, ← sub_mul, mul_div_assoc, abs_mul,
      abs_of_nonneg (div_nonneg (Nat.cast_nonneg rows) room.le)]
    exact (mul_le_mul near count (by positivity) (by norm_num)).trans_eq (mul_one _)
  calc |toRat (value (place (along a b steps i) screenHeight rows)) - course a b rows steps i|
      ≤ 1 / 2 ^ 25 + 1 / 2 ^ 24 := (abs_sub_le _ _ _).trans (add_le_add placed scaled)
    _ ≤ 1 / 2 ^ 23 := by norm_num

end Step

end Screen.Canvas

end PolishPlotter
