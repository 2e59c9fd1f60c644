import PolishPlotter.Controls.Slider
import PolishPlotter.Proofs.Binary64.Order

set_option autoImplicit false

namespace PolishPlotter.Controls

open Machine Binary64

namespace Slider

structure Holds (s : Slider) (v : Float) : Prop where
  ordered : s.min ≤ s.max
  low : s.min ≤ v
  high : v ≤ s.max

instance (s : Slider) (v : Float) : Decidable (s.Holds v) :=
  decidable_of_iff (s.min ≤ s.max ∧ s.min ≤ v ∧ v ≤ s.max)
    ⟨fun ⟨ordered, low, high⟩ => ⟨ordered, low, high⟩,
      fun ⟨ordered, low, high⟩ => ⟨ordered, low, high⟩⟩

variable {s : Slider} {v : Float}

theorem Holds.number (holds : s.Holds v) : v.isNaN = false := (numbers_of_le holds.low).2

theorem holds_clamp (ordered : s.min ≤ s.max) (number : v.isNaN = false) :
    s.Holds (s.clamp v) := by
  obtain ⟨low, high⟩ := numbers_of_le ordered
  unfold clamp
  split_ifs with below above
  · exact ⟨ordered, le_refl low, ordered⟩
  · exact ⟨ordered, ordered, le_refl high⟩
  · exact ⟨ordered, le_of_not_lt number low below, le_of_not_lt high number above⟩

-- The bounds are exchanged if they come in the wrong order.
theorem setRange_ordered (s : Slider) {min max : Float} (low : min.isNaN = false)
    (high : max.isNaN = false) : (s.setRange min max).min ≤ (s.setRange min max).max := by
  unfold setRange
  split_ifs with reversed
  · exact le_of_lt reversed
  · exact le_of_not_lt high low reversed

theorem Holds.setRange_low (holds : s.Holds v) : (s.setRange v s.max).Holds v := by
  have same := le_refl holds.number
  unfold setRange
  split_ifs with reversed
  · exact ⟨le_of_lt reversed, le_of_lt reversed, same⟩
  · exact ⟨holds.high, same, holds.high⟩

theorem Holds.setRange_high (holds : s.Holds v) : (s.setRange s.min v).Holds v := by
  have same := le_refl holds.number
  unfold setRange
  split_ifs with reversed
  · exact ⟨le_of_lt reversed, same, le_of_lt reversed⟩
  · exact ⟨holds.low, holds.low, same⟩

theorem holds_initial (s : Slider) : (s.setRange 0 1).Holds initial := by
  have kept : s.setRange 0 1 = { s with min := 0, max := 1 } := if_neg (by decide +kernel)
  have ordered : (0 : Float) ≤ 1 := by decide +kernel
  have low : 0 ≤ initial := by decide +kernel
  have high : initial ≤ 1 := by decide +kernel
  rw [kept]
  exact ⟨ordered, low, high⟩

end Slider

end PolishPlotter.Controls
