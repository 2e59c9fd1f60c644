import PolishPlotter.Proofs.Binary64.Nan
import PolishPlotter.Proofs.Controls.Range
import PolishPlotter.Proofs.Machine.Registry

set_option autoImplicit false

namespace PolishPlotter

namespace Binary64

variable {x y : Float} {n : Int}

theorem rounded_eq_zero_iff : rounded n = 0 ↔ n = 0 := by
  constructor
  · intro zero
    by_contra other
    have positive : 1 ≤ n.natAbs := by omega
    have least : units (nearest 1 1) = 1 := by decide +kernel
    have more := units_mono (nearest_mono Nat.one_pos positive)
    rw [rounded, Int.mul_eq_zero, Int.sign_eq_zero_iff_zero] at zero
    omega
  · rintro rfl
    rfl

theorem sub_beq_zero (left : x.isFinite = true) (right : y.isFinite = true) :
    (x - y == 0) = (x == y) := by
  have zero : value 0 = 0 := rfl
  rw [Bool.eq_iff_iff, beq_iff_value (isNaN_sub left right) rfl,
    beq_iff_value (isNaN_of_isFinite left) (isNaN_of_isFinite right), value_sub left right, zero,
    rounded_eq_zero_iff, Int.sub_eq_zero]

def threeBits : Nat := 0x4008000000000000

theorem sub_two_beq_one (finite : x.isFinite = true) : (x - 2 == 1) = (x == 3) := by
  have number := isNaN_of_isFinite finite
  have two : (2 : Float).isFinite = true := by decide +kernel
  have three : value 3 = units threeBits := by decide +kernel
  have exact : rounded (units threeBits - value 2) = value 1 := by decide +kernel
  rw [Bool.eq_iff_iff, beq_iff_value (isNaN_sub finite two) (by decide +kernel),
    beq_iff_value number (by decide +kernel), value_sub finite two, three]
  constructor
  · intro same
    by_contra other
    rcases Int.lt_or_gt_of_ne other with less | greater
    · have next := @value_le_units_pred x (threeBits - 1) less
      have below := @rounded_mono (value x - value 2) (units (threeBits - 1) - value 2) (by omega)
      have apart : rounded (units (threeBits - 1) - value 2) < value 1 := by decide +kernel
      omega
    · have next := units_succ_le_value greater
      have above := @rounded_mono (units (threeBits + 1) - value 2) (value x - value 2) (by omega)
      have apart : value 1 < rounded (units (threeBits + 1) - value 2) := by decide +kernel
      omega
  · intro same
    rw [same, exact]

end Binary64

namespace Controls.Slider

open Binary64 Machine Screen

/-- Where a pointer asks for NaN: on the first column of a slider whose span is infinite, and wherever
nothing is divided by a width of which nothing is left. -/
def Dead (s : Slider) (pos width : Float) : Prop :=
  (pos == 1) = true ∧ (s.max - s.min).isInf = true ∨
    ((pos - 1) * (s.max - s.min) == 0) = true ∧ (width == 3) = true

instance (s : Slider) (pos width : Float) : Decidable (s.Dead pos width) :=
  inferInstanceAs (Decidable (_ ∨ _))

variable {s : Slider} {vars : Vars} {pos width : Float}

section Interpolated

variable (low : s.min.isFinite = true) (high : s.max.isFinite = true)
  (pointer : pos.isFinite = true) (wide : width.isFinite = true)

include low high pointer wide

theorem isNaN_interpolate :
    (interpolate pos 1 (width - 2) s.min s.max).isNaN = true ↔ s.Dead pos width := by
  have one : (1 : Float).isFinite = true := by decide +kernel
  have two : (2 : Float).isFinite = true := by decide +kernel
  have column : (pos - 1).isFinite = true := isFinite_sub pointer one (by decide +kernel)
  have columns : (width - 2).isFinite = true := isFinite_sub wide two (by decide +kernel)
  have divisor : (width - 2 - 1).isFinite = true := isFinite_sub columns one (by decide +kernel)
  change (s.min + (pos - 1) * (s.max - s.min) / (width - 2 - 1)).isNaN = true ↔ _
  rw [isNaN_add low, isNaN_div divisor, isNaN_mul column (isNaN_sub high low),
    sub_beq_zero pointer one, sub_beq_zero columns one, sub_two_beq_one wide, Dead]

end Interpolated

theorem clamp_of_isNaN {v : Float} (undefined : v.isNaN = true) : s.clamp v = v := by
  have none {x y : Float} (either : x.isNaN = true ∨ y.isNaN = true) : ¬ x < y := by
    intro less
    obtain ⟨left, right⟩ := numbers_of_le (le_of_lt less)
    rcases either with first | second
    · rw [left] at first
      cases first
    · rw [right] at second
      cases second
  rw [clamp, if_neg (none (.inl undefined)), if_neg (none (.inr undefined))]

theorem touch_stays_in_range (s : Slider) (vars : Vars) (pos width : Float)
    (low : s.min.isFinite = true) (high : s.max.isFinite = true) (ordered : s.min ≤ s.max)
    (inside : s.var.index < vars.size) (pointer : pos.isFinite = true)
    (wide : width.isFinite = true) :
    let touched := s.touch vars pos width
    (s.min ≤ s.value touched ∧ s.value touched ≤ s.max ↔ ¬ s.Dead pos width) ∧
    (s.Dead pos width → (s.value touched).isNaN = true) ∧
    touched.names = vars.names ∧
    ∀ other : Var, other.index ≠ s.var.index → touched.fetch other = vars.fetch other := by
  intro touched
  have asked := isNaN_interpolate low high pointer wide
  have stored : s.value touched = s.clamp (interpolate pos 1 (width - 2) s.min s.max) :=
    Vars.fetch_store_self inside _
  refine ⟨?_, ?_, Vars.names_store .., fun other apart => Vars.fetch_store_of_ne apart _⟩
  · rw [stored]
    constructor
    · rintro ⟨above, -⟩ dead
      have undefined := asked.mpr dead
      rw [clamp_of_isNaN undefined] at above
      rw [(numbers_of_le above).2] at undefined
      cases undefined
    · intro live
      have number := Bool.eq_false_of_not_eq_true (asked.not.mpr live)
      have holds := holds_clamp ordered number
      exact ⟨holds.low, holds.high⟩
  · intro dead
    rw [stored, clamp_of_isNaN (asked.mpr dead)]
    exact asked.mpr dead

def widest : Slider := (create .new "a").1.setRange (-1e308) 1e308

-- The span and the value asked for are infinite, and the pointer is far to the right of the slider.
theorem widest_touch_in_range :
    let vars := (create .new "a").2
    let touched := widest.touch vars 1e308 2
    (widest.max - widest.min).isInf = true ∧ widest.min ≤ widest.value touched ∧
      widest.value touched ≤ widest.max ∧ touched.fetch Vars.free = vars.fetch Vars.free := by
  obtain ⟨stays, -, -, others⟩ := touch_stays_in_range widest (create .new "a").2 1e308 2
    (by decide +kernel) (by decide +kernel) (by decide +kernel) (by decide +kernel)
    (by decide +kernel) (by decide +kernel)
  obtain ⟨low, high⟩ := stays.mpr (by decide +kernel)
  exact ⟨by decide +kernel, low, high, others Vars.free (by decide +kernel)⟩

theorem narrow_touch_undefined :
    let (a, vars) := create .new "a"
    let s := a.setRange 2 2
    (s.min.isFinite = true ∧ s.max.isFinite = true ∧ s.min ≤ s.max) ∧
      (s.value (s.touch vars 5 3)).isNaN = true ∧
      ¬ (s.min ≤ s.value (s.touch vars 5 3) ∧ s.value (s.touch vars 5 3) ≤ s.max) := by
  decide +kernel

end Controls.Slider

end PolishPlotter
