import PolishPlotter.Proofs.Binary64.Comparison

set_option autoImplicit false

namespace PolishPlotter.Binary64

open Float.Model Float.Model.UnpackedFloat

variable {u v : UnpackedFloat} {a b least most : Int} {low high x y : Float} {m s : Nat}

theorem toNat_ofNatClamp_le (n : Nat) : (UInt64.ofNatClamp n).toNat ≤ n := by
  by_cases small : n < UInt64.size
  · rw [UInt64.toNat_ofNatClamp_of_lt small]
  · rw [UInt64.toNat_ofNatClamp_of_le (Nat.le_of_not_lt small)]
    omega

theorem roundToInt_positive (m s : Nat) :
    roundToInt .positive m (s - 1074) = (m * 2 ^ (s - 1074) / 2 ^ (1074 - s) : Nat) := by
  have more : ((s : Int) - 1074 - 0).toNat = s - 1074 := by omega
  have less : (0 - ((s : Int) - 1074 - (s - 1074 : Nat))).toNat = 1074 - s := by omega
  have shifted := (represents_exact (m <<< (s - 1074))).shiftRight Nat.one_pos (1074 - s)
  have whole := shifted.whole
  rw [Nat.shiftLeft_eq, Nat.one_mul] at whole
  simp only [roundToInt, decreaseExponent, shiftToExponent, more, less, Sign.apply,
    Nat.shiftLeft_eq, whole]

theorem roundToInt_positive_le (m s : Nat) :
    m * 2 ^ (s - 1074) / 2 ^ (1074 - s) * unitsPerOne ≤ m * 2 ^ s := by
  have kept := Nat.div_mul_le_self (m * 2 ^ (s - 1074)) (2 ^ (1074 - s))
  have common := Nat.mul_le_mul_right (2 ^ min s 1074) kept
  have below : 1074 - s + min s 1074 = 1074 := by omega
  have above : s - 1074 + min s 1074 = s := by omega
  rw [unitsPerOne_eq]
  rwa [Nat.mul_assoc, Nat.mul_assoc, ← Nat.pow_add, ← Nat.pow_add, below, above] at common

theorem Holds.toInt_le (holds : Holds u a) (given : 0 ≤ a) :
    u.toInt least most * unitsPerOne ≤ a := by
  cases holds with
  | zero => rw [UnpackedFloat.toInt, Int.zero_mul]
  | @finite sign m s e _ positive exponent _ _ whole =>
    have large : 0 < m * 2 ^ s := by positivity
    cases sign with
    | negative =>
      rw [whole, Sign.apply] at given
      omega
    | positive =>
      subst exponent whole
      rw [UnpackedFloat.toInt, roundToInt_positive, Sign.apply]
      exact_mod_cast roundToInt_positive_le m s

theorem toNat_toUInt64_le (finite : x.isFinite = true) (given : 0 ≤ value x) :
    (x.toUInt64.toNat : Int) * unitsPerOne ≤ value x := by
  have whole : x.toModel.unpack.toInt 0 (UInt64.size - 1) * unitsPerOne ≤ value x :=
    (holds_unpack finite).toInt_le given
  have clamped := toNat_ofNatClamp_le (x.toModel.unpack.toInt 0 (UInt64.size - 1)).toNat
  change x.toUInt64.toNat ≤ _ at clamped
  generalize x.toModel.unpack.toInt 0 (UInt64.size - 1) = i at whole clamped
  rcases Int.le_total 0 i with positive | negative
  · have count : (x.toUInt64.toNat : Int) ≤ i := by omega
    exact (Int.mul_le_mul_of_nonneg_right count (Int.natCast_nonneg _)).trans whole
  · have none : x.toUInt64.toNat = 0 := by omega
    rw [none, Nat.cast_zero, Int.zero_mul]
    exact given

theorem value_toFloat (n : UInt64) : value n.toFloat = rounded (n.toNat * unitsPerOne) := by
  rw [cast_unitsPerOne]
  exact value_pack_normalize n.toNat 1074

theorem isFinite_toFloat (n : UInt64) : n.toFloat.isFinite = true := by
  have most : (UInt64.size * unitsPerOne : Nat) ≤ largest := by decide +kernel
  have small : n.toNat * unitsPerOne ≤ UInt64.size * unitsPerOne :=
    Nat.mul_le_mul_right _ n.toNat_lt.le
  refine isFinite_of_abs_value_le ?_
  rw [value_toFloat, ← Nat.cast_mul]
  refine abs_rounded_le ?_
  rw [Nat.abs_cast]
  exact (Int.ofNat_le.mpr small).trans most

theorem isFinite_of_between (first : low.isFinite = true) (last : high.isFinite = true)
    (above : low ≤ x) (below : x < high) : x.isFinite = true := by
  obtain ⟨least, number⟩ := numbers_of_le above
  have most := (numbers_of_le (le_of_lt below)).2
  rw [le_iff_value least number] at above
  rw [lt_iff_value number most] at below
  rw [isFinite_iff_value least, abs_lt] at first
  rw [isFinite_iff_value most, abs_lt] at last
  rw [isFinite_iff_value number, abs_lt]
  omega

theorem value_lt_of_lt (less : x < y) : value x < value y := by
  obtain ⟨left, right⟩ := numbers_of_le (le_of_lt less)
  exact (lt_iff_value left right).mp less

theorem value_nonneg (given : 0 ≤ x) : 0 ≤ value x :=
  (le_iff_value rfl (numbers_of_le given).2).mp given

theorem toNat_toUInt64_lt (n : UInt64) (above : 0 ≤ x) (below : x < n.toFloat) :
    x.toUInt64.toNat < n.toNat := by
  have finite := isFinite_of_between (by decide +kernel) (isFinite_toFloat n) above below
  have less := value_lt_of_lt below
  -- A float that is no less than the count is no less than what the count is rounded to.
  have counted : value x < n.toNat * unitsPerOne := by
    by_contra other
    have more := rounded_mono (Int.not_lt.mp other)
    rw [rounded_value finite, ← value_toFloat] at more
    omega
  have kept := (toNat_toUInt64_le finite (value_nonneg above)).trans_lt counted
  exact_mod_cast lt_of_mul_lt_mul_right kept (Int.natCast_nonneg _)

end PolishPlotter.Binary64
