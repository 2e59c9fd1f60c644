import Mathlib.Data.Rat.Cast.Order
import Mathlib.Tactic.Linarith
import Mathlib.Tactic.Ring
import PolishPlotter.Screen.Curve

set_option autoImplicit false

namespace PolishPlotter

-- Every exact number is finite.
instance : Scalar ℚ where
  ofNat n := n
  isFinite _ := true
  lt x y := x < y
  le x y := x ≤ y

namespace Screen

attribute [ext] Point Viewport

theorem interpolate_exact (v min max toMin toMax : ℚ) :
    interpolate v min max toMin toMax = toMin + (v - min) * (toMax - toMin) / (max - min) := rfl

namespace Viewport

variable (v : Viewport ℚ)

theorem xSpan_exact : v.xSpan = v.xmax - v.xmin := rfl

theorem ySpan_exact : v.ySpan = v.ymax - v.ymin := rfl

theorem pan_exact (dx dy : ℚ) : v.pan dx dy = ⟨v.xmin + dx, v.xmax + dx, v.ymin + dy, v.ymax + dy⟩ :=
  rfl

def centre : Point ℚ := ⟨(v.xmin + v.xmax) / 2, (v.ymin + v.ymax) / 2⟩

def scaled (scale : ℚ) : Viewport ℚ where
  xmin := v.centre.x - v.xSpan / 2 * scale
  xmax := v.centre.x + v.xSpan / 2 * scale
  ymin := v.centre.y - v.ySpan / 2 * scale
  ymax := v.centre.y + v.ySpan / 2 * scale

-- One test for both axes, on the spans there would be.
theorem rescale_exact (scale : ℚ) :
    v.rescale scale =
      if minSpan ≤ v.xSpan * scale ∧ minSpan ≤ v.ySpan * scale then ⟨v.scaled scale, none⟩
      else ⟨v, some .degenerate⟩ := by
  have twice (span : ℚ) : 2 * (span / 2 * scale) = span * scale := by ring
  have tested : v.rescale scale =
      if (true && decide (minSpan ≤ 2 * (v.xSpan / 2 * scale)) &&
        (true && decide (minSpan ≤ 2 * (v.ySpan / 2 * scale)))) = true then ⟨v.scaled scale, none⟩
      else ⟨v, some .degenerate⟩ := rfl
  simpa only [twice, Bool.true_and, Bool.and_eq_true, decide_eq_true_eq] using tested

theorem factorOk_exact (factor : ℚ) : factorOk factor = decide (0 < factor) := rfl

theorem zoomOut_exact (factor : ℚ) :
    v.zoomOut factor = if 0 < factor then v.rescale factor else ⟨v, some (.factor factor)⟩ := by
  rw [zoomOut, factorOk_exact]
  simp only [decide_eq_true_eq]

theorem zoomIn_exact (factor : ℚ) :
    v.zoomIn factor = if 0 < factor then v.rescale factor⁻¹ else ⟨v, some (.factor factor)⟩ := by
  have inverse : Scalar.ofNat 1 / factor = factor⁻¹ := one_div factor
  rw [zoomIn, factorOk_exact, inverse]
  simp only [decide_eq_true_eq]

end Viewport

end Screen

end PolishPlotter
