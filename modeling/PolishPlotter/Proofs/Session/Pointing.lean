import PolishPlotter.Proofs.Binary64.Order
import PolishPlotter.Proofs.Session.History

set_option autoImplicit false

namespace PolishPlotter

open Binary64 Screen

namespace Screen.Cursor

structure Within (v last : Float) : Prop where
  low : 0 ≤ v
  high : v ≤ last
  number : v.isNaN = false

structure OnScreen (c : Cursor) : Prop where
  x : Within c.x lastColumn
  y : Within c.y lastRow

def moved (c : Cursor) (moves : List (Float × Float)) : Cursor :=
  moves.foldl (fun c (dx, dy) => c.nudge dx dy) c

variable {c : Cursor} {x y last : Float}

theorem le_larger (number : y.isNaN = false) : y ≤ larger x y := by
  unfold larger
  split
  · exact le_refl number
  · next other =>
    rw [Bool.not_eq_true, Bool.or_eq_false_iff, decide_eq_false_iff_not] at other
    exact le_of_not_lt other.1 number other.2

theorem smaller_between (low : x ≤ y) (ordered : x ≤ last) :
    x ≤ smaller y last ∧ smaller y last ≤ last := by
  have number := (numbers_of_le low).2
  have bound := (numbers_of_le ordered).2
  unfold smaller
  split
  · exact ⟨ordered, le_refl bound⟩
  · next other =>
    rw [Bool.not_eq_true, Bool.or_eq_false_iff, decide_eq_false_iff_not] at other
    exact ⟨low, le_of_not_lt bound number other.2⟩

-- NaN becomes zero before the upper bound is looked at.
theorem within_clamp (ordered : 0 ≤ last) (v : Float) : Within (clamp v last) last := by
  have between : 0 ≤ clamp v last ∧ clamp v last ≤ last := smaller_between (le_larger rfl) ordered
  exact ⟨between.1, between.2, (numbers_of_le between.1).2⟩

theorem onScreen_nudge (c : Cursor) (dx dy : Float) : (c.nudge dx dy).OnScreen where
  x := within_clamp (by decide +kernel) _
  y := within_clamp (by decide +kernel) _

theorem onScreen_center : center.OnScreen where
  x := ⟨by decide +kernel, by decide +kernel, by decide +kernel⟩
  y := ⟨by decide +kernel, by decide +kernel, by decide +kernel⟩

theorem OnScreen.moved (start : c.OnScreen) (moves : List (Float × Float)) :
    (c.moved moves).OnScreen := by
  induction moves generalizing c with
  | nil => exact start
  | cons move rest ih => exact ih (c.onScreen_nudge move.1 move.2)

end Screen.Cursor

namespace Session

variable {settings : Settings} {s : Session} {command : Command} {reply : Reply}

theorem cursor_apply (proper : command.isProper = true) (done : s.apply command = .ok reply) :
    reply.session.cursor = s.cursor ∨ ∃ dx dy, reply.session.cursor = s.cursor.nudge dx dy := by
  have applied := s.apply_applied proper
  cases command with
  | move dx dy =>
    cases done
    exact .inr ⟨dx, dy, rfl⟩
  | trace | traceAt | snap | quit =>
    cases done
    exact .inl rfl
  | _ =>
    rw [done] at applied
    cases applied with
    | edited | viewed | slid => exact .inl rfl
    | ended ends => cases ends

theorem Reachable.onScreen (reachable : Reachable settings s) : s.cursor.OnScreen := by
  refine reachable.invariant (P := fun s => s.cursor.OnScreen) Cursor.onScreen_center ?_ ?_
  · intro t word rest command reply onScreen reads done
    rcases cursor_apply (Command.isProper_of_read reads) done with same | ⟨dx, dy, nudged⟩
    · exact same ▸ onScreen
    · exact nudged ▸ t.cursor.onScreen_nudge dx dy
  · intro t onScreen
    exact onScreen

theorem cursor_stays_on_screen :
    (∀ moves, (Cursor.center.moved moves).OnScreen) ∧
    (∀ x y moves, ((Cursor.placed x y).moved moves).OnScreen) ∧
    ∀ settings inputs, ((new settings).run inputs).cursor.OnScreen := by
  refine ⟨?_, ?_, ?_⟩
  · intro moves
    exact Cursor.onScreen_center.moved moves
  · intro x y moves
    exact (Cursor.onScreen_nudge ⟨0, 0⟩ x y).moved moves
  · intro settings inputs
    exact (Reachable.new.run inputs).onScreen

end Session

end PolishPlotter
