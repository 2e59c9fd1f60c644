import PolishPlotter.Proofs.Binary64.Finite
import PolishPlotter.Proofs.Binary64.Ratio

set_option autoImplicit false

namespace PolishPlotter.Binary64

open Float.Model Float.Model.UnpackedFloat

/-- A float in units of `2 ^ -1074`. Infinity counts as `2 ^ 1024`. -/
def value (x : Float) : Int :=
  if isNegative x then -(units (magnitude x) : Int) else units (magnitude x)

def rounded (n : Int) : Int := n.sign * units (nearest n.natAbs 1)

section Packed

variable {u v : UnpackedFloat} {sign : Sign} {a b : Int} {x : Float}

inductive Holds : UnpackedFloat → Int → Prop
  | zero (sign : Sign) : Holds (.zero sign) 0
  | finite {sign : Sign} {m s : Nat} {e n : Int} {positive : 0 < m} (exponent : e = s - 1074)
      (canonical : Canonical m s) (bounded : s * 2 ^ 52 + m < infinityBits)
      (whole : n = sign.apply (m * 2 ^ s : Nat)) : Holds (.finite sign m e positive) n

theorem apply_zero (sign : Sign) : sign.apply 0 = 0 := by cases sign <;> rfl

theorem value_pack {bits : Nat} (small : bits < 2 ^ 63)
    (packed : (UnpackedFloat.pack Format.binary64 u).toNat = sign.toBitVec.toNat * 2 ^ 63 + bits) :
    value (.ofModel (.pack u)) = sign.apply (units bits) := by
  have same : (Float.ofModel (.pack u)).toBits.toNat = sign.toBitVec.toNat * 2 ^ 63 + bits := packed
  have rest : magnitude (.ofModel (.pack u)) = bits := by
    rw [magnitude, same, signBit, Nat.pow_eq]
    omega
  have negative : isNegative (.ofModel (.pack u)) = true ↔ sign = .negative := by
    rw [isNegative, same, decide_eq_true_eq, signBit, Nat.pow_eq]
    cases sign
    · simp [Sign.toBitVec]
    · simpa [Sign.toBitVec] using small
  rw [value, rest]
  cases sign with
  | negative => rw [if_pos (negative.mpr rfl), Sign.apply]
  | positive => rw [if_neg (by simp [negative]), Sign.apply]

theorem value_eq_apply (x : Float) :
    value x = (Sign.ofBitVec (@unpackSign Format.binary64 x.toBits.toBitVec)).apply
      (units (magnitude x)) := by
  have sign : @unpackSign Format.binary64 x.toBits.toBitVec = 0#1 ↔ ¬isNegative x = true := by
    rw [← BitVec.toNat_inj, isNegative, decide_eq_true_eq]
    change (x.toBits.toNat >>> 63) % 2 ^ 1 = 0 ↔ ¬2 ^ 63 ≤ x.toBits.toNat
    have bounded : x.toBits.toNat < 2 ^ 64 := x.toBits.toNat_lt
    rw [Nat.shiftRight_eq_div_pow]
    omega
  simp only [value, Sign.ofBitVec, sign]
  split_ifs <;> simp_all [Sign.apply]

theorem Holds.of_parts {bits : Nat} {m : Nat} {e : Int} {positive : 0 < m}
    (finite : bits < infinityBits) (same : m = mantissa bits) (exponent : e = shift bits - 1074) :
    Holds (.finite sign m e positive) (sign.apply (units bits)) := by
  subst same
  exact .finite exponent ⟨mantissa_lt bits, le_mantissa⟩ (by rwa [shift_add_mantissa]) rfl

theorem holds_unpack (finite : x.isFinite = true) : Holds x.toModel.unpack (value x) := by
  have below := isFinite_iff.mp finite
  have exponent := toNat_unpackExponent x
  have fraction := toNat_unpackMantissa x
  have number : @unpackExponent Format.binary64 x.toBits.toBitVec ≠ -1#_ := by
    intro same
    rw [same] at exponent
    change 2047 = magnitude x / 2 ^ 52 at exponent
    simp only [infinityBits] at below
    omega
  rw [value_eq_apply]
  change Holds (UnpackedFloat.unpack Format.binary64 x.toBits.toBitVec) _
  simp only [UnpackedFloat.unpack, if_neg number]
  -- The smallest exponent is that of zero and of the numbers without a leading bit.
  split_ifs with small zero
  · rw [small] at exponent
    rw [zero] at fraction
    change 0 = magnitude x / 2 ^ 52 at exponent
    change 0 = magnitude x % 2 ^ 52 at fraction
    have none : magnitude x = 0 := by omega
    rw [none]
    change Holds _ (Sign.apply _ 0)
    rw [apply_zero]
    exact .zero _
  · rw [small] at exponent
    change 0 = magnitude x / 2 ^ 52 at exponent
    refine .of_parts below ?_ ?_
    · rw [fraction, mantissa, shift, Nat.pow_eq]
      omega
    · rw [small, shift, Nat.pow_eq, ← exponent]
      rfl
  · have normal : 0 < magnitude x / 2 ^ 52 := by
      rw [← exponent]
      exact Nat.pos_of_ne_zero (fun zero => small (BitVec.eq_of_toNat_eq zero))
    refine .of_parts below ?_ ?_
    · rw [BitVec.toNat_append, ← Nat.shiftLeft_add_eq_or_of_lt (BitVec.isLt _), fraction,
        Nat.shiftLeft_eq, mantissa, shift, Nat.pow_eq]
      change 1 * 2 ^ 52 + _ = _
      omega
    · rw [exponent, shift, Nat.pow_eq]
      change ((magnitude x / 2 ^ 52 : Nat) : Int) - (1023 + 52) = _
      omega

theorem value_packedZero (sign : Sign) : value (.ofModel (.pack (.zero sign))) = 0 := by
  have packed : (UnpackedFloat.pack Format.binary64 (.zero sign)).toNat =
      sign.toBitVec.toNat * 2 ^ 63 + 0 := by
    rw [UnpackedFloat.pack, packedZero, toNat_packComponents]
    rfl
  rw [value_pack (by decide) packed]
  exact apply_zero sign

theorem Holds.value_pack (holds : Holds u a) : value (.ofModel (.pack u)) = a := by
  cases holds with
  | zero sign => exact value_packedZero sign
  | @finite sign m s e _ positive exponent canonical bounded whole =>
    subst exponent
    have packed := @toNat_pack sign _ _ canonical positive
    rw [Nat.min_eq_left bounded.le] at packed
    rw [PolishPlotter.Binary64.value_pack (bounded.trans (by decide)) packed,
      units_of_parts canonical.fits.le canonical.full, whole]

theorem apply_neg (sign : Sign) (n : Int) : (-sign).apply n = -sign.apply n := by
  cases sign with
  | negative => exact (Int.neg_neg n).symm
  | positive => rfl

theorem Holds.neg (holds : Holds u a) : Holds u.neg (-a) := by
  cases holds with
  | zero sign => exact .zero _
  | finite exponent canonical bounded whole =>
    exact .finite exponent canonical bounded (by rw [apply_neg, whole])

theorem rounded_apply (sign : Sign) (m : Nat) :
    rounded (sign.apply m) = sign.apply (units (nearest m 1)) :=
  quotient_apply Nat.one_pos sign m

theorem value_pack_round {m : Nat} (positive : 0 < m) (s : Nat) :
    value (.ofModel (.pack (UnpackedFloat.round Format.binary64 sign m (s - 1074)))) =
      rounded (sign.apply (m * 2 ^ s : Nat)) := by
  have small : nearest (m * 2 ^ s) 1 < 2 ^ 63 :=
    Nat.lt_of_le_of_lt (Nat.min_le_right _ _) (by decide)
  rw [value_pack small (toNat_pack_round positive s), rounded_apply]

theorem value_pack_normalize (n : Int) (s : Nat) :
    value (.ofModel (.pack (UnpackedFloat.normalize Format.binary64 n (s - 1074) .positive))) =
      rounded (n * 2 ^ s) := by
  rcases Int.lt_trichotomy n 0 with negative | zero | positive
  · have whole : n * 2 ^ s = Sign.negative.apply ((-n).toNat * 2 ^ s : Nat) := by
      rw [Sign.apply, Nat.cast_mul, Int.toNat_of_nonneg (by omega)]
      push_cast
      ring
    rw [UnpackedFloat.normalize, compare_lt_iff_lt.mpr negative, whole]
    exact value_pack_round (by omega) s
  · rw [zero, Int.zero_mul]
    exact value_packedZero .positive
  · have whole : n * 2 ^ s = Sign.positive.apply (n.toNat * 2 ^ s : Nat) := by
      rw [Sign.apply, Nat.cast_mul, Int.toNat_of_nonneg positive.le]
      push_cast
      rfl
    rw [UnpackedFloat.normalize, compare_gt_iff_gt.mpr positive, whole]
    exact value_pack_round (by omega) s

-- Both operands are brought to the smaller of their shifts.
theorem decreaseExponent_eq {m s t : Nat} (le : t ≤ s) :
    (decreaseExponent m (s - 1074) (t - 1074)).1 * 2 ^ t = m * 2 ^ s := by
  have count : ((s : Int) - 1074 - (t - 1074)).toNat = s - t := by omega
  simp only [decreaseExponent, count, Nat.shiftLeft_eq]
  rw [Nat.mul_assoc, ← Nat.pow_add, Nat.sub_add_cancel le]

theorem Holds.rounded_eq (holds : Holds u a) : rounded a = a := by
  cases holds with
  | zero sign => rfl
  | finite exponent canonical bounded whole =>
    rw [whole, rounded_apply, ← units_of_parts canonical.fits.le canonical.full,
      nearest_units bounded]

theorem apply_mul_two_pow (sign : Sign) (m s : Nat) :
    sign.apply (m * 2 ^ s : Nat) = sign.apply m * 2 ^ s := by
  cases sign with
  | negative =>
    simp only [Sign.apply]
    push_cast
    ring
  | positive => exact Nat.cast_mul m (2 ^ s)

theorem Holds.value_pack_add (left : Holds u a) (right : Holds v b) :
    value (.ofModel (.pack (UnpackedFloat.add Format.binary64 u v))) = rounded (a + b) := by
  have packedLeft := left.value_pack
  have packedRight := right.value_pack
  have exactLeft := left.rounded_eq
  have exactRight := right.rounded_eq
  cases left with
  | zero sign =>
    rw [Int.zero_add, exactRight]
    cases right with
    | zero other =>
      rw [UnpackedFloat.add]
      split_ifs <;> exact value_packedZero _
    | finite => exact packedRight
  | @finite sign m s _ _ _ exponent _ _ whole =>
    cases right with
    | zero other =>
      rw [Int.add_zero, exactLeft]
      exact packedLeft
    | @finite other n t _ _ _ place _ _ same =>
      subst exponent place
      have least : min ((s : Int) - 1074) (t - 1074) = (min s t : Nat) - 1074 := by omega
      have first := @decreaseExponent_eq m s (min s t) (Nat.min_le_left s t)
      have second := @decreaseExponent_eq n t (min s t) (Nat.min_le_right s t)
      simp only [UnpackedFloat.add, least]
      rw [value_pack_normalize, whole, same, ← first, ← second, apply_mul_two_pow,
        apply_mul_two_pow, Int.add_mul]

theorem sub_eq_add_opposite (u v : UnpackedFloat) :
    UnpackedFloat.sub Format.binary64 u v = UnpackedFloat.add Format.binary64 u v.neg := by
  cases u <;> cases v <;>
    simp only [UnpackedFloat.sub, UnpackedFloat.add, UnpackedFloat.neg, apply_neg,
      Int.sub_eq_add_neg]

end Packed

section Order

variable {x y : Float} {n k : Int}

theorem rounded_neg (n : Int) : rounded (-n) = -rounded n := quotient_neg n 1

theorem rounded_natCast (m : Nat) : rounded m = units (nearest m 1) :=
  quotient_natCast Nat.one_pos m

theorem rounded_mono (le : n ≤ k) : rounded n ≤ rounded k := quotient_mono Nat.one_pos le

theorem rounded_largest : rounded largest = largest := by
  rw [largest, rounded_natCast, nearest_units (by decide)]

theorem abs_rounded_le (bounded : |n| ≤ largest) : |rounded n| ≤ largest := by
  obtain ⟨low, high⟩ := abs_le.mp bounded
  have above := rounded_mono high
  have below := rounded_mono low
  rw [rounded_neg, rounded_largest] at below
  rw [rounded_largest] at above
  exact abs_le.mpr ⟨below, above⟩

theorem rounded_error_of_nonneg (given : 0 ≤ n) (bounded : n ≤ largest) :
    2 ^ 53 * |rounded n - n| ≤ n := by
  obtain ⟨m, rfl⟩ := Int.eq_ofNat_of_zero_le given
  have below : m ≤ units (infinityBits - 1) := Int.ofNat_le.mp bounded
  have finite : nearest m 1 < infinityBits := by
    have most := nearest_mono Nat.one_pos below
    rw [nearest_units (by decide)] at most
    exact Nat.lt_of_le_of_lt most (by decide)
  obtain ⟨low, high⟩ := nearest_error finite
  rw [rounded_natCast]
  rcases abs_cases ((units (nearest m 1) : Int) - m) with ⟨same, -⟩ | ⟨same, -⟩ <;>
    rw [same] <;> omega

theorem rounded_error (bounded : |n| ≤ largest) : 2 ^ 53 * |rounded n - n| ≤ |n| := by
  obtain ⟨low, high⟩ := abs_le.mp bounded
  rcases Int.le_total 0 n with positive | negative
  · rw [abs_of_nonneg positive]
    exact rounded_error_of_nonneg positive high
  · have mirrored := @rounded_error_of_nonneg (-n) (by omega) (by omega)
    rwa [rounded_neg, neg_sub_neg, abs_sub_comm, ← abs_of_nonpos negative] at mirrored

theorem rounded_close {bound : ℚ} (size : |toRat n| ≤ bound) (small : bound ≤ 2 ^ 64) :
    |toRat (rounded n) - toRat n| ≤ (bound + 1) / 2 ^ 53 := by
  have close := @quotient_close n 1 bound Nat.one_pos
  rw [Nat.cast_one, div_one] at close
  exact close size small

theorem abs_value (x : Float) : |value x| = units (magnitude x) := by
  rw [value]
  split_ifs
  · rw [abs_neg, Nat.abs_cast]
  · rw [Nat.abs_cast]

theorem units_infinity_sub_one_lt : units (infinityBits - 1) < units infinityBits := by
  decide +kernel

theorem isFinite_of_abs_value_le (bounded : |value x| ≤ largest) : x.isFinite = true := by
  rw [isFinite_iff]
  by_contra infinite
  have more := units_mono (Nat.le_of_not_lt infinite)
  have apart := units_infinity_sub_one_lt
  rw [abs_value, largest] at bounded
  omega

theorem abs_value_le_largest (finite : x.isFinite = true) : |value x| ≤ largest := by
  have below := isFinite_iff.mp finite
  rw [abs_value, largest]
  exact Int.ofNat_le.mpr (units_mono (by omega))

theorem rounded_value (finite : x.isFinite = true) : rounded (value x) = value x :=
  (holds_unpack finite).rounded_eq

theorem value_add (left : x.isFinite = true) (right : y.isFinite = true) :
    value (x + y) = rounded (value x + value y) :=
  (holds_unpack left).value_pack_add (holds_unpack right)

theorem value_sub (left : x.isFinite = true) (right : y.isFinite = true) :
    value (x - y) = rounded (value x - value y) := by
  have negated := (holds_unpack left).value_pack_add (holds_unpack right).neg
  rw [← sub_eq_add_opposite, ← Int.sub_eq_add_neg] at negated
  exact negated

end Order

end PolishPlotter.Binary64
