import PolishPlotter.Binary64.Integral
import PolishPlotter.Proofs.Binary64.Nan
import PolishPlotter.Proofs.Binary64.Whole

set_option autoImplicit false

namespace PolishPlotter.Binary64

open Float.Model Float.Model.UnpackedFloat

variable {u : UnpackedFloat} {a w least most : Int} {x y : Float} {m : Nat}

section Sign

theorem Stands.value_pack (stands : Stands u a) : value (.ofModel (.pack u)) = a := by
  cases stands with
  | number holds => exact holds.value_pack
  | infinity sign => cases sign <;> decide +kernel

theorem Stands.abs (stands : Stands u a) : Stands u.abs |a| := by
  cases stands with
  | number holds =>
    cases holds with
    | zero sign => exact .number (.zero _)
    | @finite sign m s e n positive exponent canonical bounded whole =>
      refine .number (.finite exponent canonical bounded ?_)
      rw [whole]
      cases sign with
      | negative => exact (abs_neg _).trans (Nat.abs_cast _)
      | positive => exact Nat.abs_cast _
  | infinity sign =>
    have size : |sign.apply (units infinityBits)| = Sign.positive.apply (units infinityBits) := by
      cases sign with
      | negative => exact (abs_neg _).trans (Nat.abs_cast _)
      | positive => exact Nat.abs_cast _
    rw [size]
    exact .infinity .positive

theorem value_abs (number : x.isNaN = false) : value x.abs = |value x| :=
  (stands_unpack number).abs.value_pack

theorem isNaN_abs (x : Float) : x.abs.isNaN = x.isNaN := by
  change (Float.ofModel (.pack x.toModel.unpack.abs)).isNaN = _
  rw [isNaN_pack, isNaN_eq]
  cases x.toModel.unpack <;> rfl

theorem value_neg (finite : x.isFinite = true) : value (-x) = -value x :=
  (holds_unpack finite).neg.value_pack

end Sign

section Whole

theorem rounded_whole (small : |w| ≤ 2 ^ 53) : rounded (w * unitsPerOne) = w * unitsPerOne := by
  have upward (m : Nat) (small : m ≤ 2 ^ 53) : nearest (m * unitsPerOne) 1 < infinityBits ∧
      units (nearest (m * unitsPerOne) 1) = m * unitsPerOne := by
    rcases Nat.eq_zero_or_pos m with rfl | positive
    · rw [Nat.zero_mul]
      decide +kernel
    · obtain ⟨d, zeros⟩ : ∃ d, d = 52 - m.log2 := ⟨_, rfl⟩
      have log : (m * 2 ^ d).log2 = m.log2 + d := log2_mul_two_pow positive d
      have low : 2 ^ 52 ≤ m * 2 ^ d := (Nat.le_log2 (by positivity)).mp (by omega)
      have high : m * 2 ^ d ≤ 2 ^ 53 := by
        rcases Nat.eq_zero_or_pos d with rfl | some
        · simpa using small
        · have bits := (@Nat.log2_lt (m * 2 ^ d) 53 (by positivity)).mp (by omega)
          exact bits.le
      have parts := @units_of_parts (1074 - d) (m * 2 ^ d) high (fun _ => low)
      have whole : m * 2 ^ d * 2 ^ (1074 - d) = m * unitsPerOne := by
        rw [unitsPerOne_eq, Nat.mul_assoc, pow_mul_pow_sub 2 (show d ≤ 1074 by omega)]
      rw [whole] at parts
      have finite : (1074 - d) * 2 ^ 52 + m * 2 ^ d < infinityBits := by
        simp only [infinityBits]
        omega
      rw [← parts, nearest_units finite]
      exact ⟨finite, rfl⟩
  rw [Int.abs_eq_natAbs] at small
  have exact := (upward w.natAbs (by omega)).2
  have scaled : rounded (w.natAbs * unitsPerOne) = w.natAbs * unitsPerOne := by
    rw [← Nat.cast_mul, rounded_natCast, exact]
  rcases Int.natAbs_eq w with same | same
  · rwa [← same] at scaled
  · have opposite : (w.natAbs : Int) = -w := by omega
    rwa [opposite, Int.neg_mul, rounded_neg, Int.neg_inj] at scaled

theorem Holds.toInt_eq (holds : Holds u a) (given : 0 ≤ a) :
    u.toInt least most = a / unitsPerOne := by
  cases holds with
  | zero => rw [UnpackedFloat.toInt, Int.zero_ediv]
  | @finite sign m s e _ positive exponent _ _ whole =>
    have large : 0 < m * 2 ^ s := by positivity
    cases sign with
    | negative =>
      rw [whole, Sign.apply] at given
      omega
    | positive =>
      have above : s - 1074 + min s 1074 = s := by omega
      have below : 2 ^ (1074 - s) * 2 ^ min s 1074 = unitsPerOne := by
        rw [unitsPerOne_eq, ← Nat.pow_add]
        exact congrArg (2 ^ ·) (by omega)
      have scaled := Nat.mul_div_mul_right (m * 2 ^ (s - 1074)) (2 ^ (1074 - s))
        (Nat.two_pow_pos (min s 1074))
      rw [Nat.mul_assoc, ← Nat.pow_add, above, below] at scaled
      subst exponent whole
      rw [UnpackedFloat.toInt, roundToInt_positive, Sign.apply, ← scaled]
      exact Int.natCast_ediv ..

theorem toNat_toUInt64 (finite : x.isFinite = true) (given : 0 ≤ value x)
    (small : value x < 2 ^ 64 * unitsPerOne) :
    (x.toUInt64.toNat : Int) = value x / unitsPerOne := by
  have whole : x.toModel.unpack.toInt 0 (UInt64.size - 1) = value x / unitsPerOne :=
    (holds_unpack finite).toInt_eq given
  have below : value x / unitsPerOne < 2 ^ 64 :=
    Int.ediv_lt_of_lt_mul (Int.natCast_pos.mpr unitsPerOne_pos) small
  have above : 0 ≤ value x / unitsPerOne := Int.ediv_nonneg given (Int.natCast_nonneg _)
  change ((UInt64.ofNatClamp (x.toModel.unpack.toInt 0 (UInt64.size - 1)).toNat).toNat : Int) = _
  rw [whole, UInt64.toNat_ofNatClamp_of_lt, Int.toNat_of_nonneg above]
  change _ < 2 ^ 64
  omega

end Whole

section Truncate

theorem value_whole_toFloat (n : UInt64) (small : n.toNat ≤ 2 ^ 53) :
    value n.toFloat = n.toNat * unitsPerOne := by
  rw [value_toFloat, rounded_whole]
  rw [Nat.abs_cast]
  exact_mod_cast small

structure Truncated (x : Float) (w : Int) : Prop where
  whole : value (truncate x) = w * unitsPerOne
  finite : (truncate x).isFinite = true
  small : |w| ≤ 2 ^ 52
  above : 0 ≤ value x → w * unitsPerOne ≤ value x ∧ value x < (w + 1) * unitsPerOne
  below : value x ≤ 0 → (w - 1) * unitsPerOne < value x ∧ value x ≤ w * unitsPerOne

theorem abs_lt_iff (number : x.isNaN = false) :
    x.abs < 4503599627370496 ↔ |value x| < 2 ^ 52 * unitsPerOne := by
  have bound : value 4503599627370496 = 2 ^ 52 * unitsPerOne := by decide +kernel
  rw [lt_iff_value (by rwa [isNaN_abs]) (by decide +kernel), value_abs number, bound]

theorem isFinite_of_small (number : x.isNaN = false) (small : |value x| < 2 ^ 53 * unitsPerOne) :
    x.isFinite = true := by
  have most : (2 ^ 53 * unitsPerOne : Int) < units infinityBits := by decide +kernel
  exact (isFinite_iff_value number).mpr (small.trans most)

theorem truncated_of_small (number : x.isNaN = false)
    (small : |value x| < 2 ^ 52 * unitsPerOne) : ∃ w, Truncated x w := by
  have size := value_abs number
  have least := abs_nonneg (value x)
  have room : (0 : Int) < unitsPerOne := Int.natCast_pos.mpr unitsPerOne_pos
  have finite : x.abs.isFinite = true := isFinite_of_small (by rwa [isNaN_abs]) (by
    rw [size, abs_of_nonneg least]
    omega)
  obtain ⟨n, counted⟩ : ∃ n, n = x.abs.toUInt64 := ⟨_, rfl⟩
  have quotient : (x.abs.toUInt64.toNat : Int) = value x.abs / unitsPerOne := by
    have below := small.trans (Int.mul_lt_mul_of_pos_right (by decide : (2 : Int) ^ 52 < 2 ^ 64) room)
    rw [← size] at least below
    exact toNat_toUInt64 finite least below
  rw [← counted, size] at quotient
  have low := Int.ediv_mul_le |value x| room.ne'
  have high := Int.lt_ediv_add_one_mul_self |value x| room
  have bounded := Int.ediv_lt_of_lt_mul room small
  rw [← quotient] at low high bounded
  rw [Int.add_mul, Int.one_mul] at high
  have product := Int.mul_nonneg (Int.natCast_nonneg n.toNat) (Int.natCast_nonneg unitsPerOne)
  have whole := value_whole_toFloat n (by omega)
  have unsigned := isFinite_toFloat n
  have cut : truncate x = if isNegative x then -n.toFloat else n.toFloat := by
    rw [truncate, if_pos ((abs_lt_iff number).mpr small), ← counted]
  by_cases sign : isNegative x = true
  · have negative : value x ≤ 0 := by
      rw [value, if_pos sign]
      omega
    have opposite : value (-n.toFloat) = -(n.toNat * unitsPerOne) := by
      rw [value_neg unsigned, whole]
    rw [abs_of_nonpos negative] at low high
    rw [if_pos sign] at cut
    refine ⟨-n.toNat, ?_, ?_, ?_, fun given => ?_, fun given => ?_⟩
    · rw [cut, opposite, Int.neg_mul]
    · rw [cut]
      refine isFinite_of_abs_value_le ?_
      rw [value_neg unsigned, abs_neg]
      exact abs_value_le_largest unsigned
    · rw [abs_neg, Nat.abs_cast]
      omega
    · rw [Int.add_mul, Int.neg_mul, Int.one_mul]
      omega
    · rw [Int.sub_mul, Int.neg_mul, Int.one_mul]
      omega
  · have positive : 0 ≤ value x := by
      rw [value, if_neg sign]
      omega
    rw [abs_of_nonneg positive] at low high
    rw [if_neg sign] at cut
    refine ⟨n.toNat, by rw [cut, whole], by rwa [cut], ?_, fun given => ?_, fun given => ?_⟩
    · rw [Nat.abs_cast]
      omega
    · rw [Int.add_mul, Int.one_mul]
      omega
    · rw [Int.sub_mul, Int.one_mul]
      omega

end Truncate

section Between

theorem value_floor (number : x.isNaN = false) (small : |value x| < 2 ^ 52 * unitsPerOne) :
    ∃ w, value (floor x) = w * unitsPerOne ∧ (floor x).isFinite = true ∧
      w * unitsPerOne ≤ value x ∧ value x < (w + 1) * unitsPerOne := by
  have room : (0 : Int) < unitsPerOne := Int.natCast_pos.mpr unitsPerOne_pos
  have one : value 1 = unitsPerOne := by decide +kernel
  have unit : (1 : Float).isFinite = true := by decide +kernel
  obtain ⟨w, whole, finite, bounded, above, below⟩ := truncated_of_small number small
  have order := lt_iff_value number (isNaN_of_isFinite finite)
  rw [whole] at order
  rw [Int.add_mul, Int.one_mul] at above
  rw [Int.sub_mul, Int.one_mul] at below
  have sign := Int.le_total 0 (value x)
  rw [floor]
  split_ifs with less <;> rw [order] at less
  · have fits : |w - 1| ≤ 2 ^ 53 := by
      rw [abs_le] at bounded ⊢
      omega
    have next : value (truncate x - 1) = (w - 1) * unitsPerOne := by
      rw [value_sub finite unit, whole, one, ← rounded_whole fits, Int.sub_mul, Int.one_mul]
    refine ⟨w - 1, next, isFinite_sub finite unit (by decide +kernel), ?_, ?_⟩
    · rw [Int.sub_mul, Int.one_mul]
      omega
    · rw [Int.sub_add_cancel]
      exact less
  · refine ⟨w, whole, finite, by omega, ?_⟩
    rw [Int.add_mul, Int.one_mul]
    omega

theorem value_ceil (number : x.isNaN = false) (small : |value x| < 2 ^ 52 * unitsPerOne) :
    ∃ w, value (ceil x) = w * unitsPerOne ∧ (ceil x).isFinite = true ∧
      (w - 1) * unitsPerOne < value x ∧ value x ≤ w * unitsPerOne := by
  have room : (0 : Int) < unitsPerOne := Int.natCast_pos.mpr unitsPerOne_pos
  have one : value 1 = unitsPerOne := by decide +kernel
  have unit : (1 : Float).isFinite = true := by decide +kernel
  obtain ⟨w, whole, finite, bounded, above, below⟩ := truncated_of_small number small
  have order := lt_iff_value (isNaN_of_isFinite finite) number
  rw [whole] at order
  rw [Int.add_mul, Int.one_mul] at above
  rw [Int.sub_mul, Int.one_mul] at below
  have sign := Int.le_total 0 (value x)
  rw [ceil]
  split_ifs with less <;> rw [order] at less
  · have fits : |w + 1| ≤ 2 ^ 53 := by
      rw [abs_le] at bounded ⊢
      omega
    have next : value (truncate x + 1) = (w + 1) * unitsPerOne := by
      rw [value_add finite unit, whole, one, ← rounded_whole fits, Int.add_mul, Int.one_mul]
    refine ⟨w + 1, next, ?_, ?_, ?_⟩
    · refine isFinite_of_small ?_ ?_
      · rw [isNaN_add finite]
        decide +kernel
      · rw [next, abs_mul, Nat.abs_cast]
        rw [abs_le] at bounded
        refine Int.mul_lt_mul_of_pos_right (abs_lt.mpr ?_) room
        omega
    · rw [Int.add_sub_cancel]
      exact less
    · rw [Int.add_mul, Int.one_mul]
      omega
  · refine ⟨w, whole, finite, ?_, by omega⟩
    rw [Int.sub_mul, Int.one_mul]
    omega

-- From `2 ^ 52` on, and at infinity.
theorem truncate_of_large (number : x.isNaN = false)
    (large : ¬ |value x| < 2 ^ 52 * unitsPerOne) : truncate x = x := by
  rw [truncate, if_neg ((abs_lt_iff number).not.mpr large)]

theorem floor_of_large (number : x.isNaN = false)
    (large : ¬ |value x| < 2 ^ 52 * unitsPerOne) : floor x = x := by
  have same : ¬ x < x := by
    rw [lt_iff_value number number]
    exact Int.lt_irrefl _
  simp only [floor, truncate_of_large number large, if_neg same]

end Between

end PolishPlotter.Binary64
