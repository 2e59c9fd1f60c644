import PolishPlotter.Proofs.Binary64.Finite

set_option autoImplicit false

namespace PolishPlotter.Binary64

open Float.Model Float.Model.UnpackedFloat

variable {u v : UnpackedFloat} {x y : Float}

theorem compare_swap (u v : UnpackedFloat) : (u.compare v).map Ordering.swap = v.compare u := by
  cases u with
  | notANumber => cases v <;> rfl
  | infinity s =>
    cases v with
    | infinity t => cases s <;> cases t <;> rfl
    | _ => cases s <;> rfl
  | zero s =>
    cases v with
    | infinity t | finite t => cases t <;> rfl
    | _ => rfl
  | finite s =>
    cases v with
    | infinity t => cases s <;> cases t <;> rfl
    | finite t =>
      cases s <;> cases t <;>
        simp [UnpackedFloat.compare, Ordering.swap_then, Int.compare_swap, Nat.compare_swap]
    | _ => cases s <;> rfl

theorem isSome_compare (u v : UnpackedFloat) :
    (u.compare v).isSome = (!u.isNaN && !v.isNaN) := by
  cases u with
  | notANumber => rfl
  | zero s =>
    cases v with
    | infinity t | finite t => cases t <;> rfl
    | _ => rfl
  | infinity s | finite s =>
    cases v with
    | infinity t | finite t => cases s <;> cases t <;> rfl
    | _ => cases s <;> rfl

def order? (x y : Float) : Option Ordering := x.toModel.unpack.compare y.toModel.unpack

theorem swap_order? (x y : Float) : (order? x y).map Ordering.swap = order? y x :=
  compare_swap x.toModel.unpack y.toModel.unpack

theorem isSome_order? (x y : Float) : (order? x y).isSome = (!x.isNaN && !y.isNaN) :=
  isSome_compare x.toModel.unpack y.toModel.unpack

theorem lt_iff : x < y ↔ order? x y = some .lt := by
  change decide ((order? x y == some .lt) = true) = true ↔ _
  simp

theorem le_iff : x ≤ y ↔ order? x y = some .lt ∨ order? x y = some .eq := by
  change decide ((order? x y).any (·.isLE) = true) = true ↔ _
  cases order? x y with
  | none => simp
  | some order => cases order <;> simp

theorem le_of_lt (less : x < y) : x ≤ y := le_iff.mpr (.inl (lt_iff.mp less))

theorem numbers_of_le (le : x ≤ y) : x.isNaN = false ∧ y.isNaN = false := by
  have compared : (order? x y).isSome = true := by
    rcases le_iff.mp le with same | same <;> rw [same] <;> rfl
  rw [isSome_order?, Bool.and_eq_true, Bool.not_eq_true', Bool.not_eq_true'] at compared
  exact compared

theorem le_of_not_lt (left : x.isNaN = false) (right : y.isNaN = false) (other : ¬ x < y) :
    y ≤ x := by
  have compared := isSome_order? x y
  rw [left, right] at compared
  obtain ⟨order, same⟩ := Option.isSome_iff_exists.mp compared
  rw [lt_iff, same] at other
  rw [le_iff, ← swap_order?, same]
  cases order with
  | lt => exact absurd rfl other
  | eq => exact .inr rfl
  | gt => exact .inl rfl

theorem le_refl (number : x.isNaN = false) : x ≤ x :=
  le_of_not_lt number number fun less => by
    have mirrored := swap_order? x x
    rw [lt_iff.mp less] at mirrored
    cases mirrored

end PolishPlotter.Binary64
