import PolishPlotter.Screen.Curve

set_option autoImplicit false

namespace PolishPlotter.Screen.Pen

variable (pen : Pen)

theorem move_none : pen.move none = ⟨pen.runs, none, false⟩ := by
  unfold move
  cases pen.last <;> rfl

theorem move_of_last_none {p : Point Float} (h : pen.last = none) :
    pen.move (some p) = ⟨pen.runs, some p, false⟩ := by
  unfold move
  rw [h]

theorem move_start {p q : Point Float} (h : pen.last = some p) (lone : pen.joined = false) :
    pen.move (some q) = ⟨[q, p] :: pen.runs, some q, true⟩ := by
  unfold move
  simp [h, lone, startRun]

theorem move_continue {p q : Point Float} {run : List (Point Float)}
    {rest : List (List (Point Float))} (h : pen.last = some p) (joined : pen.joined = true)
    (runs : pen.runs = run :: rest) : pen.move (some q) = ⟨(q :: run) :: rest, some q, true⟩ := by
  unfold move
  simp [h, joined, continueRun, runs]

theorem runs_foldl_next {columns : List Column} (h : ∀ c ∈ columns, c.point? = none) :
    (columns.foldl next pen).runs = pen.runs := by
  induction columns generalizing pen with
  | nil => rfl
  | cons c rest ih =>
    have moved : (pen.next c).runs = pen.runs := by
      unfold next
      rw [h c (List.mem_cons_self ..), move_none]
      split <;> rfl
    rw [List.foldl_cons, ih _ fun d member => h d (List.mem_cons_of_mem c member), moved]

end PolishPlotter.Screen.Pen
