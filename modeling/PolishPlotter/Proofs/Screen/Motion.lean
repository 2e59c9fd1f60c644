import PolishPlotter.Proofs.Screen.Exact

set_option autoImplicit false

namespace PolishPlotter.Screen

inductive Move (α : Type)
  | pan (dx dy : α)
  | stick (dx dy rate : α)
  | zoomIn (factor : α)
  | zoomOut (factor : α)

namespace Viewport

section Move

variable {α : Type} [Scalar α]

def move (v : Viewport α) : Move α → Viewport α
  | .pan dx dy => v.pan dx dy
  | .stick dx dy rate => v.panByStick dx dy rate
  | .zoomIn factor => (v.zoomIn factor).view
  | .zoomOut factor => (v.zoomOut factor).view

def moveAll (v : Viewport α) (moves : List (Move α)) : Viewport α := moves.foldl move v

end Move

section Pan

variable (v : Viewport ℚ) (dx dy dx' dy' : ℚ)

@[simp] theorem xSpan_pan : (v.pan dx dy).xSpan = v.xSpan := by
  simp only [xSpan_exact, pan_exact]
  ring

@[simp] theorem ySpan_pan : (v.pan dx dy).ySpan = v.ySpan := by
  simp only [ySpan_exact, pan_exact]
  ring

theorem pan_pan : (v.pan dx dy).pan dx' dy' = v.pan (dx + dx') (dy + dy') := by
  simp only [pan_exact, add_assoc]

/-- How far a move takes the view along each axis, when it is a pan of either kind. -/
def shift? : Move ℚ → Option (ℚ × ℚ)
  | .pan dx dy => some (dx, dy)
  | .stick dx dy rate => some (rate * v.xSpan * dx, rate * v.ySpan * dy)
  | .zoomIn _ | .zoomOut _ => none

variable {v} {m n : Move ℚ} {d e : ℚ × ℚ}

theorem move_of_shift? (shifts : v.shift? m = some d) : v.move m = v.pan d.1 d.2 := by
  cases m with
  | pan | stick =>
    cases shifts
    rfl
  | zoomIn | zoomOut => cases shifts

-- A stick depends on the spans alone, and a pan does not change them.
theorem shift?_pan (dx dy : ℚ) (m : Move ℚ) : (v.pan dx dy).shift? m = v.shift? m := by
  cases m <;> simp only [shift?, xSpan_pan, ySpan_pan]

theorem move_move_of_shift? (first : v.shift? m = some d) (second : v.shift? n = some e) :
    (v.move m).move n = v.pan (d.1 + e.1) (d.2 + e.2) := by
  have later : (v.pan d.1 d.2).shift? n = some e := (shift?_pan ..).trans second
  rw [move_of_shift? first, move_of_shift? later, pan_pan]

end Pan

section Zoom

variable (v : Viewport ℚ) (scale : ℚ)

theorem xSpan_scaled : (v.scaled scale).xSpan = v.xSpan * scale := by
  simp only [xSpan_exact, scaled]
  ring

theorem ySpan_scaled : (v.scaled scale).ySpan = v.ySpan * scale := by
  simp only [ySpan_exact, scaled]
  ring

theorem centre_scaled : (v.scaled scale).centre = v.centre := by
  ext <;> simp only [scaled, centre] <;> ring

theorem scaled_scaled (other : ℚ) : (v.scaled scale).scaled other = v.scaled (scale * other) := by
  rw [scaled, centre_scaled, xSpan_scaled, ySpan_scaled]
  ext <;> simp only [scaled] <;> ring

theorem scaled_one : v.scaled 1 = v := by
  ext <;> simp only [scaled, centre, xSpan_exact, ySpan_exact] <;> ring

-- Neither axis is zoomed down too far.
structure Wide (v : Viewport ℚ) : Prop where
  x : minSpan ≤ v.xSpan
  y : minSpan ≤ v.ySpan

-- An accepted zoom.
structure Zoomed (v : Viewport ℚ) (scale : ℚ) (w : Viewport ℚ) : Prop where
  positive : 0 < scale
  wide : w.Wide
  same : w = v.scaled scale

variable {v scale} {w : Viewport ℚ} {factor : ℚ}

theorem rescale_accepted (positive : 0 < scale) : v.rescale scale = ⟨w, none⟩ ↔ Zoomed v scale w := by
  rw [rescale_exact, ← xSpan_scaled, ← ySpan_scaled]
  constructor
  · intro accepted
    split at accepted
    · next wide =>
      cases accepted
      exact ⟨positive, ⟨wide.1, wide.2⟩, rfl⟩
    · cases accepted
  · rintro ⟨-, wide, rfl⟩
    exact if_pos ⟨wide.x, wide.y⟩

theorem zoomOut_accepted : v.zoomOut factor = ⟨w, none⟩ ↔ Zoomed v factor w := by
  rw [zoomOut_exact]
  by_cases positive : 0 < factor
  · rw [if_pos positive, rescale_accepted positive]
  · rw [if_neg positive]
    exact ⟨nofun, fun zoomed => absurd zoomed.positive positive⟩

theorem zoomIn_accepted : v.zoomIn factor = ⟨w, none⟩ ↔ Zoomed v factor⁻¹ w := by
  rw [zoomIn_exact]
  by_cases positive : 0 < factor
  · rw [if_pos positive, rescale_accepted (inv_pos.mpr positive)]
  · rw [if_neg positive]
    exact ⟨nofun, fun zoomed => absurd (inv_pos.mp zoomed.positive) positive⟩

theorem exists_zoomed : (∃ w, Zoomed v scale w) ↔
    0 < scale ∧ minSpan ≤ v.xSpan * scale ∧ minSpan ≤ v.ySpan * scale := by
  rw [← xSpan_scaled, ← ySpan_scaled]
  constructor
  · rintro ⟨_, positive, wide, rfl⟩
    exact ⟨positive, wide.x, wide.y⟩
  · rintro ⟨positive, x, y⟩
    exact ⟨_, positive, ⟨x, y⟩, rfl⟩

namespace Zoomed

theorem centre (zoomed : Zoomed v scale w) : w.centre = v.centre := by
  rw [zoomed.same, centre_scaled]

theorem shape (zoomed : Zoomed v scale w) : w.xSpan / w.ySpan = v.xSpan / v.ySpan := by
  rw [zoomed.same, xSpan_scaled, ySpan_scaled]
  exact mul_div_mul_right _ _ zoomed.positive.ne'

-- The spans a zoom comes from are wide enough to go back to.
theorem undo (wide : v.Wide) (zoomed : Zoomed v scale w) : Zoomed w scale⁻¹ v := by
  refine ⟨inv_pos.mpr zoomed.positive, wide, ?_⟩
  rw [zoomed.same, scaled_scaled, mul_inv_cancel₀ zoomed.positive.ne', scaled_one]

end Zoomed

theorem zoomOut_of_zoomIn (wide : v.Wide) (accepted : v.zoomIn factor = ⟨w, none⟩) :
    w.zoomOut factor = ⟨v, none⟩ := by
  have undone := (zoomIn_accepted.mp accepted).undo wide
  rw [inv_inv] at undone
  exact zoomOut_accepted.mpr undone

theorem zoomIn_of_zoomOut (wide : v.Wide) (accepted : v.zoomOut factor = ⟨w, none⟩) :
    w.zoomIn factor = ⟨v, none⟩ :=
  zoomIn_accepted.mpr ((zoomOut_accepted.mp accepted).undo wide)

end Zoom

section Run

variable {v w : Viewport ℚ}

-- What all moves keep.
structure Keeps (v w : Viewport ℚ) : Prop where
  wide : w.Wide
  shape : w.xSpan / w.ySpan = v.xSpan / v.ySpan

theorem keeps_zoom (wide : v.Wide) {scale : ℚ} {result : ZoomResult ℚ}
    (zooms : ∀ w, result = ⟨w, none⟩ → Zoomed v scale w)
    (refuses : ∀ refusal, result.refusal? = some refusal → result.view = v) :
    Keeps v result.view := by
  obtain ⟨w, refusal?⟩ := result
  cases refusal? with
  | none =>
    have zoomed := zooms w rfl
    exact ⟨zoomed.wide, zoomed.shape⟩
  | some refusal =>
    obtain rfl : w = v := refuses refusal rfl
    exact ⟨wide, rfl⟩

theorem keeps_pan (wide : v.Wide) (dx dy : ℚ) : Keeps v (v.pan dx dy) := by
  refine ⟨⟨?_, ?_⟩, ?_⟩
  · rw [xSpan_pan]
    exact wide.x
  · rw [ySpan_pan]
    exact wide.y
  · rw [xSpan_pan, ySpan_pan]

theorem keeps_move (wide : v.Wide) (m : Move ℚ) : Keeps v (v.move m) := by
  cases m with
  | pan dx dy => exact keeps_pan wide dx dy
  | stick dx dy rate => exact keeps_pan wide _ _
  | zoomIn factor => exact keeps_zoom wide (fun w => zoomIn_accepted.mp) fun _ => view_zoomIn_of_refused
  | zoomOut factor => exact keeps_zoom wide (fun w => zoomOut_accepted.mp) fun _ => view_zoomOut_of_refused

theorem keeps_moveAll (wide : v.Wide) (moves : List (Move ℚ)) : Keeps v (v.moveAll moves) := by
  induction moves generalizing v with
  | nil => exact ⟨wide, rfl⟩
  | cons m rest ih =>
    have first := keeps_move wide m
    have later := ih first.wide
    exact ⟨later.wide, later.shape.trans first.shape⟩

end Run

theorem moves_keep_shape (v : Viewport ℚ) (wide : v.Wide) :
    (∀ moves, (v.moveAll moves).Wide ∧
      (v.moveAll moves).xSpan / (v.moveAll moves).ySpan = v.xSpan / v.ySpan) ∧
    (∀ m d, v.shift? m = some d → (v.move m).xSpan = v.xSpan ∧ (v.move m).ySpan = v.ySpan ∧
      ∀ n e, v.shift? n = some e →
        (v.move m).move n = v.pan (d.1 + e.1) (d.2 + e.2) ∧
        (v.move n).move m = v.pan (d.1 + e.1) (d.2 + e.2)) ∧
    ∀ factor,
      ((∃ w, v.zoomIn factor = ⟨w, none⟩) ↔
        0 < factor ∧ minSpan ≤ v.xSpan / factor ∧ minSpan ≤ v.ySpan / factor) ∧
      ((∃ w, v.zoomOut factor = ⟨w, none⟩) ↔
        0 < factor ∧ minSpan ≤ v.xSpan * factor ∧ minSpan ≤ v.ySpan * factor) ∧
      (∀ w, v.zoomIn factor = ⟨w, none⟩ →
        v.move (.zoomIn factor) = w ∧ w.centre = v.centre ∧ w.zoomOut factor = ⟨v, none⟩) ∧
      (∀ w, v.zoomOut factor = ⟨w, none⟩ →
        v.move (.zoomOut factor) = w ∧ w.centre = v.centre ∧ w.zoomIn factor = ⟨v, none⟩) ∧
      ∀ refusal, ((v.zoomIn factor).refusal? = some refusal → v.move (.zoomIn factor) = v) ∧
        ((v.zoomOut factor).refusal? = some refusal → v.move (.zoomOut factor) = v) := by
  refine ⟨?_, ?_, ?_⟩
  · intro moves
    have keeps := keeps_moveAll wide moves
    exact ⟨keeps.wide, keeps.shape⟩
  · intro m d first
    rw [move_of_shift? first, xSpan_pan, ySpan_pan]
    refine ⟨rfl, rfl, fun n e second => ?_⟩
    rw [← move_of_shift? first]
    refine ⟨move_move_of_shift? first second, ?_⟩
    rw [move_move_of_shift? second first, add_comm e.1, add_comm e.2]
  · intro factor
    refine ⟨?_, ?_, ?_, ?_, ?_⟩
    · simp only [zoomIn_accepted, exists_zoomed, inv_pos, div_eq_mul_inv]
    · simp only [zoomOut_accepted, exists_zoomed]
    · intro w accepted
      refine ⟨?_, (zoomIn_accepted.mp accepted).centre, zoomOut_of_zoomIn wide accepted⟩
      rw [move, accepted]
    · intro w accepted
      refine ⟨?_, (zoomOut_accepted.mp accepted).centre, zoomIn_of_zoomOut wide accepted⟩
      rw [move, accepted]
    · intro refusal
      exact ⟨view_zoomIn_of_refused, view_zoomOut_of_refused⟩

-- The second zoom goes too far in and is refused.
def tour : List (Move ℚ) :=
  [.zoomIn 2, .stick 1 2 (1 / 10), .zoomIn 100000000000, .pan 1 0, .zoomOut 3]

theorem tour_keeps_shape :
    let v : Viewport ℚ := ⟨-5, 5, -3, 3⟩
    let w : Viewport ℚ := ⟨-5 / 2, 5 / 2, -3 / 2, 3 / 2⟩
    v.Wide ∧ (v.moveAll tour).xSpan / (v.moveAll tour).ySpan = 5 / 3 ∧
      v.zoomIn 2 = ⟨w, none⟩ ∧ w.centre = v.centre ∧ w.zoomOut 2 = ⟨v, none⟩ := by
  intro v w
  have wide : v.Wide := ⟨by decide +kernel, by decide +kernel⟩
  have accepted : v.zoomIn 2 = ⟨w, none⟩ := by
    refine zoomIn_accepted.mpr ⟨by decide +kernel, ⟨by decide +kernel, by decide +kernel⟩, ?_⟩
    ext <;> decide +kernel
  obtain ⟨toured, -, zooms⟩ := moves_keep_shape v wide
  obtain ⟨-, -, taken, -⟩ := zooms 2
  obtain ⟨-, centred, back⟩ := taken w accepted
  refine ⟨wide, ?_, accepted, centred, back⟩
  rw [(toured tour).2]
  decide +kernel

end Viewport

end PolishPlotter.Screen
