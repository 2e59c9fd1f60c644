import PolishPlotter.Proofs.Binary64.Comparison

set_option autoImplicit false

namespace PolishPlotter.Binary64

open Float.Model Float.Model.UnpackedFloat

variable {u v : UnpackedFloat} {x y : Float}

theorem magnitude_pack (u : UnpackedFloat) :
    magnitude (.ofModel (.pack u)) = (UnpackedFloat.pack Format.binary64 u).toNat % 2 ^ 63 := rfl

theorem isNaN_packComponents (sign : Sign) (exponent : BitVec 11) (m : BitVec 52)
    (number : exponent.toNat * 2 ^ 52 + m.toNat ≤ infinityBits)
    (packed : UnpackedFloat.pack Format.binary64 u =
      packComponents Format.binary64 sign exponent m) :
    (Float.ofModel (.pack u)).isNaN = false := by
  rw [← Bool.not_eq_true, isNaN_iff, magnitude_pack, packed, toNat_packComponents]
  simp only [infinityBits] at number ⊢
  omega

theorem isNaN_pack (u : UnpackedFloat) : (Float.ofModel (.pack u)).isNaN = u.isNaN := by
  cases u with
  | notANumber => decide +kernel
  | infinity sign => exact isNaN_packComponents sign (-1#_) 0 (by decide) rfl
  | zero sign => exact isNaN_packComponents sign 0 0 (by decide) rfl
  | finite sign m e positive =>
    have fraction := (BitVec.ofNat 52 m).isLt
    by_cases large : 2 ^ 11 ≤
        (e + Format.binary64.exponentBias + Format.binary64.mantissaBitsWithoutImplicit).toNat + 1
    · exact isNaN_packComponents sign (-1#_) 0 (by decide) (if_pos large)
    · by_cases normal : m.log2 + 1 = Format.binary64.mantissaBits
      · refine isNaN_packComponents sign (.ofNat _ _) (.ofNat _ m) ?_
          ((if_neg large).trans (if_pos normal))
        rw [BitVec.toNat_ofNat, infinityBits]
        omega
      · refine isNaN_packComponents sign 0#_ (.ofNat _ m) ?_
          ((if_neg large).trans (if_neg normal))
        rw [BitVec.toNat_ofNat, infinityBits]
        omega

theorem isNaN_roundWithAccuracy (sign : Sign) (m : Nat) (e : Int) (accuracy : Accuracy) :
    (roundWithAccuracy Format.binary64 sign m e accuracy).isNaN = false := by
  simp only [roundWithAccuracy]
  split_ifs <;> rfl

theorem isNaN_normalize (n e : Int) (sign : Sign) :
    (UnpackedFloat.normalize Format.binary64 n e sign).isNaN = false := by
  unfold UnpackedFloat.normalize
  split
  · exact isNaN_roundWithAccuracy ..
  · rfl
  · exact isNaN_roundWithAccuracy ..

theorem unpack_zero : (0 : Float).toModel.unpack = .zero .positive := rfl

theorem beq_zero_iff : (x == 0) = true ↔ ∃ sign, x.toModel.unpack = .zero sign := by
  change (order? x 0 == some .eq) = true ↔ _
  rw [beq_iff_eq, order?, unpack_zero]
  generalize x.toModel.unpack = u
  cases u with
  | notANumber => simp [UnpackedFloat.compare]
  | infinity sign | finite sign => cases sign <;> simp [UnpackedFloat.compare]
  | zero sign => simp [UnpackedFloat.compare]

theorem isInf_iff : x.isInf = true ↔ ∃ sign, x.toModel.unpack = .infinity sign := by
  change x.toModel.unpack.isInf = true ↔ _
  cases x.toModel.unpack <;> simp [UnpackedFloat.isInf]

theorem isNaN_eq (x : Float) : x.isNaN = x.toModel.unpack.isNaN := rfl

theorem isFinite_eq (x : Float) : x.isFinite = x.toModel.unpack.isFinite := rfl

theorem isNaN_add (left : x.isFinite = true) : (x + y).isNaN = y.isNaN := by
  change (Float.ofModel (.pack (UnpackedFloat.add _ x.toModel.unpack y.toModel.unpack))).isNaN = _
  rw [isFinite_eq] at left
  rw [isNaN_pack, isNaN_eq]
  generalize x.toModel.unpack = u, y.toModel.unpack = v at left ⊢
  cases u with
  | notANumber | infinity => cases left
  | zero sign =>
    cases v with
    | zero other =>
      rw [UnpackedFloat.add]
      split_ifs <;> rfl
    | _ => rfl
  | finite =>
    cases v with
    | finite => exact isNaN_normalize ..
    | _ => rfl

theorem isNaN_sub (left : x.isFinite = true) (right : y.isFinite = true) :
    (x - y).isNaN = false := by
  change (Float.ofModel (.pack (UnpackedFloat.sub _ x.toModel.unpack y.toModel.unpack))).isNaN = _
  rw [isFinite_eq] at left right
  rw [isNaN_pack]
  generalize x.toModel.unpack = u, y.toModel.unpack = v at left right ⊢
  cases u with
  | notANumber | infinity => cases left
  | zero sign =>
    cases v with
    | notANumber | infinity => cases right
    | zero other =>
      rw [UnpackedFloat.sub]
      split_ifs <;> rfl
    | finite => rfl
  | finite =>
    cases v with
    | notANumber | infinity => cases right
    | zero => rfl
    | finite => exact isNaN_normalize ..

theorem isNaN_mul (left : x.isFinite = true) (right : y.isNaN = false) :
    (x * y).isNaN = true ↔ (x == 0) = true ∧ y.isInf = true := by
  change (Float.ofModel (.pack (UnpackedFloat.mul _ x.toModel.unpack y.toModel.unpack))).isNaN =
    true ↔ _
  rw [isFinite_eq] at left
  rw [isNaN_eq] at right
  rw [isNaN_pack, beq_zero_iff, isInf_iff]
  generalize x.toModel.unpack = u, y.toModel.unpack = v at left right ⊢
  cases u with
  | notANumber | infinity => cases left
  | zero sign =>
    cases v with
    | notANumber => cases right
    | _ => simp [UnpackedFloat.mul, UnpackedFloat.isNaN]
  | finite =>
    cases v with
    | notANumber => cases right
    | finite => simp [UnpackedFloat.mul, isNaN_roundWithAccuracy]
    | _ => simp [UnpackedFloat.mul, UnpackedFloat.isNaN]

theorem isNaN_div (right : y.isFinite = true) :
    (x / y).isNaN = true ↔ x.isNaN = true ∨ (x == 0) = true ∧ (y == 0) = true := by
  change (Float.ofModel (.pack (UnpackedFloat.div _ x.toModel.unpack y.toModel.unpack))).isNaN =
    true ↔ _
  rw [isFinite_eq] at right
  rw [isNaN_pack, isNaN_eq, beq_zero_iff, beq_zero_iff]
  generalize x.toModel.unpack = u, y.toModel.unpack = v at right ⊢
  cases v with
  | notANumber | infinity => cases right
  | zero => cases u <;> simp [UnpackedFloat.div, UnpackedFloat.isNaN]
  | finite =>
    cases u with
    | finite =>
      simp only [UnpackedFloat.div, isNaN_roundWithAccuracy]
      simp [UnpackedFloat.isNaN]
    | _ => simp [UnpackedFloat.div, UnpackedFloat.isNaN]

end PolishPlotter.Binary64
