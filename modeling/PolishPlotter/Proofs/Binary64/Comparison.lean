import PolishPlotter.Proofs.Binary64.Arithmetic
import PolishPlotter.Proofs.Binary64.Order

set_option autoImplicit false

namespace PolishPlotter.Binary64

open Float.Model Float.Model.UnpackedFloat

variable {u v : UnpackedFloat} {a b : Int} {x y : Float} {m n s t bits : Nat}

section Compare

theorem compare_neg (a b : Int) : compare (-a) (-b) = (compare a b).swap := by
  rcases Int.lt_trichotomy a b with less | rfl | greater
  · rw [compare_lt_iff_lt.mpr less, compare_gt_iff_gt.mpr (by omega)]
    rfl
  · rw [compare_eq_iff_eq.mpr rfl, compare_eq_iff_eq.mpr rfl]
    rfl
  · rw [compare_gt_iff_gt.mpr greater, compare_lt_iff_lt.mpr (by omega)]
    rfl

theorem Canonical.compare_eq (left : Canonical m s) (right : Canonical n t) :
    (compare ((s : Int) - 1074) (t - 1074)).then (compare m n) =
      compare ((m * 2 ^ s : Nat) : Int) (n * 2 ^ t : Nat) := by
  -- With a leading bit in the mantissa, the larger shift is that of the larger number.
  rcases Nat.lt_trichotomy s t with less | rfl | greater
  · have beyond := mul_two_pow_lt left.fits (right.full (by omega)) less
    rw [compare_lt_iff_lt.mpr (Int.ofNat_lt.mpr beyond), compare_lt_iff_lt.mpr (by omega)]
    rfl
  · rw [compare_eq_iff_eq.mpr rfl, Ordering.eq_then]
    rcases Nat.lt_trichotomy m n with less | rfl | greater
    · have scaled := Nat.mul_lt_mul_of_pos_right less (Nat.two_pow_pos s)
      rw [compare_lt_iff_lt.mpr less, compare_lt_iff_lt.mpr (Int.ofNat_lt.mpr scaled)]
    · rw [compare_eq_iff_eq.mpr rfl, compare_eq_iff_eq.mpr rfl]
    · have scaled := Nat.mul_lt_mul_of_pos_right greater (Nat.two_pow_pos s)
      rw [compare_gt_iff_gt.mpr greater, compare_gt_iff_gt.mpr (Int.ofNat_lt.mpr scaled)]
  · have beyond := mul_two_pow_lt right.fits (left.full (by omega)) greater
    rw [compare_gt_iff_gt.mpr (Int.ofNat_lt.mpr beyond), compare_gt_iff_gt.mpr (by omega)]
    rfl

end Compare

inductive Stands : UnpackedFloat → Int → Prop
  | number {u : UnpackedFloat} {a : Int} (holds : Holds u a) : Stands u a
  | infinity (sign : Sign) : Stands (.infinity sign) (sign.apply (units infinityBits))

theorem largest_lt_infinity : largest < units infinityBits :=
  Int.ofNat_lt.mpr units_infinity_sub_one_lt

theorem Holds.abs_lt (holds : Holds u a) : |a| < units infinityBits := by
  refine Int.lt_of_le_of_lt ?_ largest_lt_infinity
  cases holds with
  | zero sign => exact Int.natCast_nonneg _
  | @finite sign m s e n positive exponent canonical bounded whole =>
    have below : units (s * 2 ^ 52 + m) ≤ units (infinityBits - 1) := units_mono (by omega)
    rw [units_of_parts canonical.fits.le canonical.full] at below
    have size : |a| = (m * 2 ^ s : Nat) := by
      rw [whole]
      cases sign with
      | negative => exact (abs_neg _).trans (Nat.abs_cast _)
      | positive => exact Nat.abs_cast _
    rw [size]
    exact Int.ofNat_le.mpr below

theorem Holds.compare_eq (left : Holds u a) (right : Holds v b) :
    u.compare v = some (compare a b) := by
  cases left with
  | zero sign =>
    cases right with
    | zero => rfl
    | @finite other n t _ _ positive _ _ _ same =>
      have large : (0 : Int) < (n * 2 ^ t : Nat) := by positivity
      subst same
      cases other with
      | negative => exact congrArg some (compare_gt_iff_gt.mpr (Int.neg_neg_of_pos large)).symm
      | positive => exact congrArg some (compare_lt_iff_lt.mpr large).symm
  | @finite sign m s _ _ positive exponent canonical _ whole =>
    have large : (0 : Int) < (m * 2 ^ s : Nat) := by positivity
    subst whole
    cases right with
    | zero =>
      cases sign with
      | negative => exact congrArg some (compare_lt_iff_lt.mpr (Int.neg_neg_of_pos large)).symm
      | positive => exact congrArg some (compare_gt_iff_gt.mpr large).symm
    | @finite other n t _ _ more place standard _ same =>
      have larger : (0 : Int) < (n * 2 ^ t : Nat) := by positivity
      subst exponent place same
      have magnitudes := canonical.compare_eq standard
      cases sign with
      | negative =>
        cases other with
        | negative =>
          simp only [Sign.apply, UnpackedFloat.compare, magnitudes, compare_neg]
        | positive =>
          refine congrArg some (compare_lt_iff_lt.mpr ?_).symm
          simp only [Sign.apply]
          omega
      | positive =>
        cases other with
        | negative =>
          refine congrArg some (compare_gt_iff_gt.mpr ?_).symm
          simp only [Sign.apply]
          omega
        | positive => exact congrArg some magnitudes

theorem Stands.compare_eq (left : Stands u a) (right : Stands v b) :
    u.compare v = some (compare a b) := by
  have most : (0 : Int) < units infinityBits := by
    have positive : 0 < units infinityBits := by decide +kernel
    exact_mod_cast positive
  cases left with
  | number first =>
    cases right with
    | number second => exact first.compare_eq second
    | infinity sign =>
      obtain ⟨low, high⟩ := abs_lt.mp first.abs_lt
      cases sign with
      | negative =>
        have order : u.compare (.infinity .negative) = some .gt := by cases first <;> rfl
        rw [order, Sign.apply, compare_gt_iff_gt.mpr low]
      | positive =>
        have order : u.compare (.infinity .positive) = some .lt := by cases first <;> rfl
        rw [order, Sign.apply, compare_lt_iff_lt.mpr high]
  | infinity sign =>
    cases right with
    | number second =>
      obtain ⟨low, high⟩ := abs_lt.mp second.abs_lt
      cases sign with
      | negative =>
        have order : UnpackedFloat.compare (.infinity .negative) v = some .lt := by
          cases second <;> rfl
        rw [order, Sign.apply, compare_lt_iff_lt.mpr low]
      | positive =>
        have order : UnpackedFloat.compare (.infinity .positive) v = some .gt := by
          cases second <;> rfl
        rw [order, Sign.apply, compare_gt_iff_gt.mpr high]
    | infinity other =>
      cases sign <;> cases other
      · exact congrArg some (compare_eq_iff_eq.mpr rfl).symm
      · refine congrArg some (compare_lt_iff_lt.mpr ?_).symm
        simp only [Sign.apply]
        omega
      · refine congrArg some (compare_gt_iff_gt.mpr ?_).symm
        simp only [Sign.apply]
        omega
      · exact congrArg some (compare_eq_iff_eq.mpr rfl).symm

theorem magnitude_eq_of_infinite (number : x.isNaN = false) (infinite : ¬ x.isFinite = true) :
    magnitude x = infinityBits := by
  have numbered := isNaN_iff.not.mp (Bool.not_eq_true _ ▸ number)
  have large := isFinite_iff.not.mp infinite
  omega

theorem stands_unpack (number : x.isNaN = false) : Stands x.toModel.unpack (value x) := by
  by_cases finite : x.isFinite = true
  · exact .number (holds_unpack finite)
  · have whole := magnitude_eq_of_infinite number finite
    have unpacked : x.toModel.unpack =
        .infinity (.ofBitVec (@unpackSign Format.binary64 x.toBits.toBitVec)) := by
      change UnpackedFloat.unpack Format.binary64 x.toBits.toBitVec = _
      have exponent := toNat_unpackExponent x
      have fraction := toNat_unpackMantissa x
      rw [whole] at exponent fraction
      have last : @unpackExponent Format.binary64 x.toBits.toBitVec = -1#_ :=
        BitVec.eq_of_toNat_eq exponent
      have none : @unpackMantissa Format.binary64 x.toBits.toBitVec = 0#_ :=
        BitVec.eq_of_toNat_eq fraction
      simp only [UnpackedFloat.unpack, if_pos last, if_pos none]
    rw [unpacked, value_eq_apply, whole]
    exact .infinity _

theorem isFinite_iff_value (number : x.isNaN = false) :
    x.isFinite = true ↔ |value x| < units infinityBits := by
  constructor
  · intro finite
    exact (holds_unpack finite).abs_lt
  · intro below
    by_contra infinite
    rw [abs_value, magnitude_eq_of_infinite number infinite] at below
    exact Int.lt_irrefl _ below

-- The largest numbers are so far apart that two more make no difference.
theorem isFinite_sub (left : x.isFinite = true) (right : y.isFinite = true)
    (small : |value y| ≤ value 2) : (x - y).isFinite = true := by
  have reached : rounded (largest + value 2) = largest := by decide +kernel
  have size := abs_value_le_largest left
  refine isFinite_of_abs_value_le ?_
  rw [abs_le] at small size ⊢
  have above := @rounded_mono (value x - value y) (largest + value 2) (by omega)
  have below := @rounded_mono (-(largest + value 2)) (value x - value y) (by omega)
  rw [rounded_neg, reached] at below
  rw [reached] at above
  rw [value_sub left right]
  exact ⟨below, above⟩

theorem order?_eq (left : x.isNaN = false) (right : y.isNaN = false) :
    order? x y = some (compare (value x) (value y)) :=
  (stands_unpack left).compare_eq (stands_unpack right)

theorem lt_iff_value (left : x.isNaN = false) (right : y.isNaN = false) :
    x < y ↔ value x < value y := by
  rw [lt_iff, order?_eq left right, Option.some.injEq, compare_lt_iff_lt]

theorem le_iff_value (left : x.isNaN = false) (right : y.isNaN = false) :
    x ≤ y ↔ value x ≤ value y := by
  rw [le_iff, order?_eq left right, Option.some.injEq, Option.some.injEq, compare_lt_iff_lt,
    compare_eq_iff_eq, Int.le_iff_lt_or_eq]

theorem beq_iff_value (left : x.isNaN = false) (right : y.isNaN = false) :
    (x == y) = true ↔ value x = value y := by
  change (order? x y == some .eq) = true ↔ _
  rw [order?_eq left right, beq_iff_eq, Option.some.injEq, compare_eq_iff_eq]

theorem le_of_value_le (left : x.isFinite = true) (right : y.isFinite = true)
    (le : value x ≤ value y) : x ≤ y :=
  (le_iff_value (isNaN_of_isFinite left) (isNaN_of_isFinite right)).mpr le

-- Next to a number there is nothing before the following magnitude.
theorem units_succ_le_value (above : units bits < value x) : units (bits + 1) ≤ value x := by
  rw [value] at above ⊢
  split_ifs at above ⊢
  · omega
  · have next : bits + 1 ≤ magnitude x := by
      by_contra other
      have same := @units_mono (magnitude x) bits (by omega)
      omega
    exact Int.ofNat_le.mpr (units_mono next)

theorem value_le_units_pred (below : value x < units (bits + 1)) : value x ≤ units bits := by
  rw [value] at below ⊢
  split_ifs at below ⊢
  · omega
  · have previous : magnitude x ≤ bits := by
      by_contra other
      have same := @units_mono (bits + 1) (magnitude x) (by omega)
      omega
    exact Int.ofNat_le.mpr (units_mono previous)

end PolishPlotter.Binary64
