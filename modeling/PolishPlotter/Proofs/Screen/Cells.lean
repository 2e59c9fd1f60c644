import PolishPlotter.Proofs.Binary64.Floor
import PolishPlotter.Proofs.Binary64.Quotient
import PolishPlotter.Proofs.Screen.Drawing

set_option autoImplicit false

namespace PolishPlotter

namespace Binary64

variable {x y : Float} {n : Int} {m side count k : Nat}

theorem value_count (small : m ≤ 2 ^ 53) : value m.toUInt64.toFloat = m * unitsPerOne := by
  have same : m.toUInt64.toNat = m := by
    rw [Nat.toUInt64, UInt64.toNat_ofNat_of_lt']
    change m < 2 ^ 64
    omega
  rw [value_whole_toFloat _ (by omega), same]

theorem isFinite_count (m : Nat) : m.toUInt64.toFloat.isFinite = true := isFinite_toFloat _

theorem isNaN_mul_finite (left : x.isFinite = true) (right : y.isFinite = true) :
    (x * y).isNaN = false := by
  rw [← Bool.not_eq_true, isNaN_mul left (isNaN_of_isFinite right), isInf_iff]
  rintro ⟨-, sign, same⟩
  rw [isFinite_eq, same] at right
  cases right

theorem abs_quotient_le (given : 0 < m) (whole : rounded n = n) : |quotient n m| ≤ |n| := by
  have upward {n : Int} (least : 0 ≤ n) (whole : rounded n = n) : |quotient n m| ≤ n := by
    have scaled := quotient_mul_right given n 1
    have more : n ≤ n * m := by
      have one : (1 : Int) ≤ m := Int.ofNat_le.mpr given
      exact (Int.mul_one n).symm.trans_le (Int.mul_le_mul_of_nonneg_left one least)
    rw [abs_of_nonneg (quotient_nonneg given least)]
    calc quotient n m ≤ quotient (n * m) (1 * m) := by
          rw [Nat.one_mul]
          exact quotient_mono given more
      _ = rounded n := scaled
      _ = n := whole
  rcases Int.le_total 0 n with positive | negative
  · rw [abs_of_nonneg positive]
    exact upward positive whole
  · have mirrored := @upward (-n) (by omega) (by rw [rounded_neg, whole])
    rwa [quotient_neg, abs_neg, ← abs_of_nonpos negative] at mirrored

theorem value_div_count (finite : x.isFinite = true) (given : 0 < side) (small : side ≤ 2 ^ 53) :
    (x / side.toUInt64.toFloat).isFinite = true ∧
      value (x / side.toUInt64.toFloat) = quotient (value x) side := by
  have divisor := value_count small
  have product : 0 < side * unitsPerOne := Nat.mul_pos given unitsPerOne_pos
  have positive : 0 < value side.toUInt64.toFloat := by
    rw [divisor, ← Nat.cast_mul]
    exact Int.natCast_pos.mpr product
  have whole : value (x / side.toUInt64.toFloat) = quotient (value x) side := by
    rw [value_div finite (isFinite_count side) positive, divisor, ← Nat.cast_mul,
      Int.toNat_natCast, quotient_mul_right unitsPerOne_pos]
  refine ⟨isFinite_of_abs_value_le ?_, whole⟩
  rw [whole]
  exact (abs_quotient_le given (rounded_value finite)).trans (abs_value_le_largest finite)

theorem value_mul_count (finite : x.isFinite = true) (small : count ≤ 2 ^ 53) :
    value (x * count.toUInt64.toFloat) = rounded (value x * count) := by
  rw [value_mul finite (isFinite_count count), value_count small, ← Int.mul_assoc]
  exact (congrArg _ (Nat.one_mul unitsPerOne).symm).trans
    (quotient_mul_right unitsPerOne_pos (value x * count) 1)

end Binary64

namespace Screen.Canvas

open Binary64

variable {v : Float} {side count i : Nat}

def place (v : Float) (side count : Nat) : Float :=
  v / side.toUInt64.toFloat * count.toUInt64.toFloat

section Place

variable (finite : v.isFinite = true) (given : 0 < side) (small : side ≤ 2 ^ 53)
  (few : count ≤ 2 ^ 53)

include finite given small

theorem isNaN_place : (place v side count).isNaN = false :=
  isNaN_mul_finite (value_div_count finite given small).1 (isFinite_count count)

include few

theorem value_place : value (place v side count) = rounded (quotient (value v) side * count) := by
  obtain ⟨divided, quotient⟩ := value_div_count finite given small
  rw [place, value_mul_count divided few, quotient]

end Place

theorem cellIndex?_of_between (number : (place v side count).isNaN = false)
    (few : count ≤ 2 ^ 52) (inside : i < count)
    (low : i * unitsPerOne ≤ value (place v side count))
    (high : value (place v side count) < (i + 1) * unitsPerOne) :
    cellIndex? v side.toUInt64.toFloat count = some i := by
  have room : (0 : Int) < unitsPerOne := Int.natCast_pos.mpr unitsPerOne_pos
  have least : 0 ≤ (i : Int) * unitsPerOne :=
    Int.mul_nonneg (Int.natCast_nonneg i) (Int.natCast_nonneg unitsPerOne)
  have bounded : |value (place v side count)| < 2 ^ 52 * unitsPerOne := by
    rw [abs_of_nonneg (least.trans low)]
    exact high.trans_le (Int.mul_le_mul_of_nonneg_right (by omega) room.le)
  obtain ⟨w, whole, finite, below, above⟩ := value_floor number bounded
  have same : w = i := by
    have first := lt_of_mul_lt_mul_right (low.trans_lt above) room.le
    have second := lt_of_mul_lt_mul_right (below.trans_lt high) room.le
    omega
  subst same
  have cell := isNaN_of_isFinite finite
  have total := value_count (show count ≤ 2 ^ 53 by omega)
  have first : 0 ≤ floor (place v side count) := by
    rw [le_iff_value rfl cell, whole]
    exact least
  have last : floor (place v side count) < count.toUInt64.toFloat := by
    rw [lt_iff_value cell (isNaN_of_isFinite (isFinite_count count)), whole, total]
    exact Int.mul_lt_mul_of_pos_right (Int.ofNat_lt.mpr inside) room
  have counted : ((floor (place v side count)).toUInt64.toNat : Int) = i := by
    rw [toNat_toUInt64 finite (whole ▸ least) _, whole, Int.mul_ediv_cancel _ room.ne']
    rw [whole]
    exact Int.mul_lt_mul_of_pos_right (by omega) room
  have reached : cellIndex? v side.toUInt64.toFloat count =
      some (floor (place v side count)).toUInt64.toNat := if_pos ⟨first, last⟩
  rw [reached, Int.ofNat_inj.mp counted]

theorem between_of_cellIndex? (number : (place v side count).isNaN = false)
    (few : count ≤ 2 ^ 52) (reached : cellIndex? v side.toUInt64.toFloat count = some i) :
    i * unitsPerOne ≤ value (place v side count) ∧
      value (place v side count) < (i + 1) * unitsPerOne := by
  have room : (0 : Int) < unitsPerOne := Int.natCast_pos.mpr unitsPerOne_pos
  change (if 0 ≤ floor (place v side count) ∧ floor (place v side count) < count.toUInt64.toFloat
    then some (floor (place v side count)).toUInt64.toNat else none) = some i at reached
  split at reached
  · next inside =>
    cases reached
    have least := value_nonneg inside.1
    have most := value_lt_of_lt inside.2
    have total := Int.mul_le_mul_of_nonneg_right (Int.ofNat_le.mpr few) room.le
    rw [value_count (by omega)] at most
    have small : |value (place v side count)| < 2 ^ 52 * unitsPerOne := by
      by_contra large
      rw [floor_of_large number large] at least most
      rw [abs_of_nonneg least] at large
      exact large (most.trans_le total)
    obtain ⟨w, whole, finite, below, above⟩ := value_floor number small
    have bounded := Int.mul_lt_mul_of_pos_right (show ((2 ^ 52 : Nat) : Int) < 2 ^ 64 by decide) room
    have counted := toNat_toUInt64 finite least ((most.trans_le total).trans bounded)
    rw [whole, Int.mul_ediv_cancel _ room.ne'] at counted
    rw [counted]
    exact ⟨below, above⟩
  · cases reached

section Level

variable {z : Float} {k : Nat}

theorem value_lt_of_floor_lt (number : z.isNaN = false) (few : k < 2 ^ 52)
    (below : floor z < k.toUInt64.toFloat) : value z < k * unitsPerOne := by
  have room : (0 : Int) < unitsPerOne := Int.natCast_pos.mpr unitsPerOne_pos
  have less := value_lt_of_lt below
  rw [value_count (by omega)] at less
  by_cases small : |value z| < 2 ^ 52 * unitsPerOne
  · obtain ⟨w, whole, -, -, above⟩ := value_floor number small
    rw [whole] at less
    have next := lt_of_mul_lt_mul_right less room.le
    exact above.trans_le (Int.mul_le_mul_of_nonneg_right next room.le)
  · rwa [floor_of_large number small] at less

theorem le_value_of_lt_floor (number : z.isNaN = false) (few : k < 2 ^ 52)
    (above : k.toUInt64.toFloat < floor z) : (k + 1) * unitsPerOne ≤ value z := by
  have room : (0 : Int) < unitsPerOne := Int.natCast_pos.mpr unitsPerOne_pos
  have less := value_lt_of_lt above
  rw [value_count (by omega)] at less
  by_cases small : |value z| < 2 ^ 52 * unitsPerOne
  · obtain ⟨w, whole, -, below, -⟩ := value_floor number small
    rw [whole] at less
    have next := lt_of_mul_lt_mul_right less room.le
    exact (Int.mul_le_mul_of_nonneg_right next room.le).trans below
  · rw [floor_of_large number small] at less
    have least : 0 ≤ (k : Int) * unitsPerOne :=
      Int.mul_nonneg (Int.natCast_nonneg k) (Int.natCast_nonneg unitsPerOne)
    rw [abs_of_pos (least.trans_lt less), Int.not_lt] at small
    exact (Int.mul_le_mul_of_nonneg_right (by omega) room.le).trans small

end Level

section Column

def screenWidthBits : Nat := 0x4079000000000000

theorem units_screenWidthBits : units screenWidthBits = screenWidth * unitsPerOne := by
  decide +kernel

theorem last_place_lt (given : 0 < count) (few : count ≤ screenWidth) :
    rounded (quotient (units (screenWidthBits - 1)) screenWidth * count) <
      count * unitsPerOne := by
  have share : 2 ^ 53 * quotient (units (screenWidthBits - 1)) screenWidth =
      (2 ^ 53 - 1) * unitsPerOne := by
    decide +kernel
  have room : (0 : Int) < unitsPerOne := Int.natCast_pos.mpr unitsPerOne_pos
  have most : (screenWidth * unitsPerOne : Int) ≤ largest := by decide +kernel
  have all : (count * unitsPerOne : Int) ≤ screenWidth * unitsPerOne :=
    Int.mul_le_mul_of_nonneg_right (Int.ofNat_le.mpr few) room.le
  have positive : 0 < (count : Int) * unitsPerOne :=
    Int.mul_pos (Int.natCast_pos.mpr given) room
  have whole : 2 ^ 53 * (quotient (units (screenWidthBits - 1)) screenWidth * count) =
      (2 ^ 53 - 1) * (count * unitsPerOne) := by
    rw [← Int.mul_assoc, share]
    ring
  have total := all.trans most
  generalize quotient (units (screenWidthBits - 1)) screenWidth * count = n at whole ⊢
  generalize (count : Int) * unitsPerOne = m at whole positive total ⊢
  have error := @rounded_error_of_nonneg n (by linarith) (by linarith)
  have above := le_abs_self (rounded n - n)
  linarith

theorem exists_column (finite : v.isFinite = true) (given : 0 < count)
    (few : count ≤ screenWidth) (left : 0 ≤ value v) (right : value v < screenWidth * unitsPerOne) :
    ∃ col, cellIndex? v screenWidth.toUInt64.toFloat count = some col := by
  have room : (0 : Int) < unitsPerOne := Int.natCast_pos.mpr unitsPerOne_pos
  have wide : 0 < screenWidth := by decide
  have small : screenWidth ≤ 2 ^ 52 := by decide
  have last : value v ≤ units (screenWidthBits - 1) := by
    refine @value_le_units_pred v (screenWidthBits - 1) ?_
    exact right.trans_eq (by rw [← Nat.cast_mul, ← units_screenWidthBits]; rfl)
  have placed := @value_place v screenWidth count finite wide (by omega) (by omega)
  have low : 0 ≤ value (place v screenWidth count) := by
    have nothing := rounded_mono
      (Int.mul_nonneg (quotient_nonneg wide left) (Int.natCast_nonneg count))
    rw [placed]
    exact nothing
  have high : value (place v screenWidth count) < count * unitsPerOne := by
    rw [placed]
    have most := Int.mul_le_mul_of_nonneg_right (quotient_mono wide last) (Int.natCast_nonneg count)
    exact (rounded_mono most).trans_lt (last_place_lt given few)
  obtain ⟨col, whole⟩ := Int.eq_ofNat_of_zero_le (Int.ediv_nonneg low room.le)
  have inside := Int.ediv_lt_of_lt_mul room high
  have below := Int.ediv_mul_le (value (place v screenWidth count)) room.ne'
  have above := Int.lt_ediv_add_one_mul_self (value (place v screenWidth count)) room
  rw [whole] at inside below above
  exact ⟨col, cellIndex?_of_between (isNaN_place finite wide (by omega)) (by omega)
    (Int.ofNat_lt.mp inside) below above⟩

end Column

end Screen.Canvas

end PolishPlotter
