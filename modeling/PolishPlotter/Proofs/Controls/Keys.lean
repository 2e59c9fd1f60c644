import Mathlib.Data.List.Infix
import Mathlib.Tactic.SplitIfs
import PolishPlotter.Controls.Keypad

set_option autoImplicit false

namespace PolishPlotter.Controls

open Machine

inductive Edit.Keyed : Edit → Prop
  | push (v : Float) : Keyed (.push (.literal v))
  | negate : Keyed (.push .neg)
  | replaceLast (v : Float) : Keyed (.replaceLast (.literal v))
  | popLast : Keyed .popLast
  | none : Keyed .none

structure Equation.Typed (e f : Equation) : Prop where
  color : f.color = e.color
  mem : ∀ i ∈ f.instructions, i ∈ e.instructions ∨ i = .neg ∨ ∃ v, i = .literal v

namespace Equation.Typed

variable {e f g : Equation}

theorem refl (e : Equation) : e.Typed e := ⟨rfl, fun _ => .inl⟩

theorem trans (first : e.Typed f) (second : f.Typed g) : e.Typed g := by
  refine ⟨second.color.trans first.color, ?_⟩
  intro i member
  rcases second.mem i member with before | typed
  · exact first.mem i before
  · exact .inr typed

end Equation.Typed

-- At most one new instruction, and it is the last.
theorem Equation.Typed.concat {e : Equation} {front : List Instruction} {i : Instruction}
    (kept : ∀ j ∈ front, j ∈ e.instructions) (new : i = .neg ∨ ∃ v, i = .literal v) :
    e.Typed { e with instructions := front ++ [i] } := by
  refine ⟨rfl, ?_⟩
  intro j member
  rcases List.mem_append.mp member with before | last
  · exact .inl (kept j before)
  · rw [List.mem_singleton.mp last]
    exact .inr new

theorem Edit.Keyed.apply {edit : Edit} (keyed : edit.Keyed) (e : Equation) :
    ∃ f, edit.apply e = .ok f ∧ e.Typed f := by
  have shorter : ∀ j ∈ e.instructions.dropLast, j ∈ e.instructions :=
    fun j => List.mem_of_mem_dropLast
  cases keyed with
  | none => exact ⟨e, rfl, .refl e⟩
  | popLast => exact ⟨e.pop, rfl, rfl, fun j member => .inl (shorter j member)⟩
  | push v => exact ⟨_, rfl, .concat (fun _ => id) (.inr ⟨v, rfl⟩)⟩
  | negate => exact ⟨_, rfl, .concat (fun _ => id) (.inl rfl)⟩
  | replaceLast v => exact ⟨_, rfl, .concat shorter (.inr ⟨v, rfl⟩)⟩

namespace Keypad

variable (k : Keypad)

theorem digit_keyed (c : Char) : (k.digit c).1.Keyed := by
  unfold digit
  split
  · exact .replaceLast _
  · exact .push _

theorem key_keyed (c : Char) : (k.key c).1.Keyed := by
  simp only [key]
  split_ifs
  · exact k.digit_keyed c
  · exact .none
  · exact k.digit_keyed c
  · exact .replaceLast _
  · exact .negate
  · exact .popLast
  · exact .replaceLast _
  · exact .popLast
  · exact .none

theorem type_typed (e : Equation) (keys : List Char) :
    ∃ l f, k.type e keys = .ok (l, f) ∧ e.Typed f := by
  induction keys generalizing k e with
  | nil => exact ⟨k, e, rfl, .refl e⟩
  | cons c rest ih =>
    obtain ⟨f, applied, first⟩ := (k.key_keyed c).apply e
    obtain ⟨l, g, typed, later⟩ := ih (k.key c).2 f
    refine ⟨l, g, ?_, first.trans later⟩
    simp only [type, applied, typed]

end Keypad

end PolishPlotter.Controls
