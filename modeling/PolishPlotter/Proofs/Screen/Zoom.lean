import PolishPlotter.Proofs.Binary64.Comparison
import PolishPlotter.Settings.Basic

set_option autoImplicit false

namespace PolishPlotter.Screen

open Binary64 Settings

section Span

variable {centre half : Float}

/-- Both bounds are finite, and the span between them is neither too small nor too large, even
though each of them is rounded by up to `2 ^ -53` of itself. -/
structure Resolved (centre half : Float) : Prop where
  bounded : |value centre| + value half ≤ largest
  wide : 2 ^ 52 * value minSpan + (|value centre| + value half) ≤ 2 ^ 53 * value half
  narrow : 2 ^ 53 * value half + (|value centre| + value half) ≤ 2 ^ 52 * largest

theorem isFinite_minSpan : (minSpan : Float).isFinite = true := by decide +kernel

theorem value_minSpan_pos : 0 < value minSpan := by decide +kernel

theorem spanUsable_of_value {min max : Float} (minFinite : min.isFinite = true)
    (maxFinite : max.isFinite = true) (low : value minSpan ≤ value max - value min)
    (high : value max - value min ≤ largest) : spanUsable min max = true := by
  have positive := value_minSpan_pos
  have span := value_sub maxFinite minFinite
  have finite : (max - min).isFinite = true := isFinite_of_abs_value_le (by
    rw [span]
    exact abs_rounded_le (abs_le.mpr ⟨by omega, high⟩))
  have least : minSpan ≤ max - min := le_of_value_le isFinite_minSpan finite (by
    rw [span, ← rounded_value isFinite_minSpan]
    exact rounded_mono low)
  simp only [spanUsable, minFinite, maxFinite, finite, Bool.and_self, Bool.true_and]
  exact decide_eq_true least

theorem bound_error {x : Float} {n size : Int} (rounds : value x = rounded n)
    (size_le : |n| ≤ size) (bounded : size ≤ largest) :
    x.isFinite = true ∧ -size ≤ 2 ^ 53 * (value x - n) ∧ 2 ^ 53 * (value x - n) ≤ size := by
  have small := size_le.trans bounded
  have error := (rounded_error small).trans size_le
  have low := neg_abs_le (value x - n)
  have high := le_abs_self (value x - n)
  rw [← rounds] at error
  refine ⟨isFinite_of_abs_value_le ?_, by omega, by omega⟩
  rw [rounds]
  exact abs_rounded_le small

theorem Resolved.spanUsable (resolved : Resolved centre half) :
    spanUsable (centre - half) (centre + half) = true := by
  obtain ⟨bounded, wide, narrow⟩ := resolved
  have least := value_minSpan_pos
  have size := abs_nonneg (value centre)
  have reach : |value half| = value half := abs_of_nonneg (by omega)
  have centreFinite : centre.isFinite = true := isFinite_of_abs_value_le (by omega)
  have halfFinite : half.isFinite = true := isFinite_of_abs_value_le (by omega)
  obtain ⟨minFinite, minLow, minHigh⟩ := bound_error (value_sub centreFinite halfFinite)
    ((abs_sub _ _).trans_eq (by rw [reach])) bounded
  obtain ⟨maxFinite, maxLow, maxHigh⟩ := bound_error (value_add centreFinite halfFinite)
    ((abs_add_le _ _).trans_eq (by rw [reach])) bounded
  exact spanUsable_of_value minFinite maxFinite (by omega) (by omega)

end Span

section View

variable {v : Viewport Float} {scale : Float}

structure Resolves (v : Viewport Float) (scale : Float) : Prop where
  x : Resolved ((v.xmin + v.xmax) / 2) (v.xSpan / 2 * scale)
  y : Resolved ((v.ymin + v.ymax) / 2) (v.ySpan / 2 * scale)

theorem rescale_usable (resolves : Resolves v scale) (accepted : (v.rescale scale).refusal? = none) :
    viewUsable (v.rescale scale).view = true := by
  simp only [Viewport.rescale] at accepted ⊢
  split_ifs at accepted ⊢
  exact Bool.and_eq_true_iff.mpr ⟨resolves.x.spanUsable, resolves.y.spanUsable⟩

theorem zoom_usable (v : Viewport Float) (factor : Float) :
    ((v.zoomIn factor).refusal? = none → Resolves v (1 / factor) →
      viewUsable (v.zoomIn factor).view = true) ∧
    ((v.zoomOut factor).refusal? = none → Resolves v factor →
      viewUsable (v.zoomOut factor).view = true) ∧
    ∀ refusal, ((v.zoomIn factor).refusal? = some refusal → (v.zoomIn factor).view = v) ∧
      ((v.zoomOut factor).refusal? = some refusal → (v.zoomOut factor).view = v) := by
  refine ⟨fun accepted resolves => ?_, fun accepted resolves => ?_,
    fun refusal => ⟨Viewport.view_zoomIn_of_refused, Viewport.view_zoomOut_of_refused⟩⟩
  · simp only [Viewport.zoomIn] at accepted ⊢
    split_ifs at accepted ⊢
    exact rescale_usable resolves accepted
  · simp only [Viewport.zoomOut] at accepted ⊢
    split_ifs at accepted ⊢
    exact rescale_usable resolves accepted

-- At this distance one float is an eighth away from the next. No view is scaled by infinity.
theorem distant_zoom_usable :
    let v : Viewport Float := ⟨1000000000000000, 1000000000000016, -3, 3⟩
    (v.zoomIn 2).refusal? = none ∧ Resolves v (1 / 2) ∧ viewUsable (v.zoomIn 2).view = true ∧
      (v.zoomOut (1 / 0)).refusal?.isSome = true ∧ (v.zoomOut (1 / 0)).view = v := by
  intro v
  have resolves : Resolves v (1 / 2) :=
    ⟨⟨by decide +kernel, by decide +kernel, by decide +kernel⟩,
      ⟨by decide +kernel, by decide +kernel, by decide +kernel⟩⟩
  have accepted : (v.zoomIn 2).refusal? = none :=
    Option.isNone_iff_eq_none.mp (by decide +kernel)
  have refused : (v.zoomOut (1 / 0)).refusal?.isSome = true := by decide +kernel
  obtain ⟨refusal, held⟩ := Option.isSome_iff_exists.mp refused
  exact ⟨accepted, resolves, (zoom_usable v 2).1 accepted resolves, refused,
    ((zoom_usable v (1 / 0)).2.2 refusal).2 held⟩

/-- Farther out, where the next float is 16 away, both bounds round to the centre. -/
theorem farther_zoom_collapses :
    viewUsable ⟨100000000000000000, 100000000000000016, -3, 3⟩ = true ∧
      (⟨100000000000000000, 100000000000000016, -3, 3⟩ : Viewport Float).zoomIn 2 =
        ⟨⟨100000000000000000, 100000000000000000, -1.5, 1.5⟩, none⟩ ∧
      viewUsable ⟨100000000000000000, 100000000000000000, -1.5, 1.5⟩ = false :=
  ⟨by decide +kernel, rfl, by decide +kernel⟩

end View

end PolishPlotter.Screen
