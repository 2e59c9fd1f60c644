import PolishPlotter.Machine.Instruction
import PolishPlotter.Screen.Paint

set_option autoImplicit false

namespace PolishPlotter.Controls

open Machine Screen

structure Equation where
  instructions : List Instruction
  color : Color

namespace Equation

def size (e : Equation) : Nat := e.instructions.length

def isEmpty (e : Equation) : Bool := e.instructions.isEmpty

def push (e : Equation) (i : Instruction) : Except Error Equation :=
  if i.isNoop then .error .noopRefused
  else .ok { e with instructions := e.instructions ++ [i] }

-- Replaces the last instruction, or appends to an empty equation.
def replaceLast (e : Equation) (i : Instruction) : Except Error Equation :=
  if i.isNoop then .error .noopRefused
  else .ok { e with instructions := e.instructions.dropLast ++ [i] }

def pop (e : Equation) : Equation := { e with instructions := e.instructions.dropLast }

def clear (e : Equation) : Equation := { e with instructions := [] }

/-- A number still being typed is shown as typed, in place of the literal it stands for. -/
def transcript (e : Equation) (pending : Option String) : String :=
  match pending, e.instructions with
  | some entry, _ :: _ =>
    " ".intercalate (e.instructions.dropLast.map (·.text) ++ [entry])
  | _, _ => Machine.transcript e.instructions

theorem pop_of_push {e f : Equation} {i : Instruction} (h : e.push i = .ok f) : f.pop = e := by
  unfold push at h
  split at h
  · contradiction
  · cases h
    simp [pop]

end Equation

abbrev slotCount : Nat := 4

def slotColors : Vector Color slotCount :=
  ⟨#[⟨0x00, 0x00, 0xC0⟩, ⟨0x00, 0x80, 0x00⟩, ⟨0xD5, 0x00, 0xDD⟩, ⟨0xD2, 0x94, 0x00⟩], rfl⟩

structure Slots where
  equations : Vector Equation slotCount
  active : Fin slotCount

namespace Slots

def new (colors : Vector Color slotCount) : Slots := ⟨colors.map (⟨[], ·⟩), 0⟩

def sine : List Instruction :=
  .push Vars.free :: ((Function.lookup? "sin").map .apply).toList

def withSine (colors : Vector Color slotCount) : Slots :=
  let slots := new colors
  { slots with equations := slots.equations.set 0 { slots.equations[0] with instructions := sine } }

def label (index : Nat) : String := s!"Y{index + 1}"

def get? (s : Slots) (index : Nat) : Option Equation := s.equations[index]?

def current (s : Slots) : Equation := s.equations[s.active]

def setCurrent (s : Slots) (e : Equation) : Slots :=
  { s with equations := s.equations.set s.active e }

def next (s : Slots) : Slots := { s with active := s.active + 1 }

def prev (s : Slots) : Slots := { s with active := s.active - 1 }

@[simp] theorem current_setCurrent (s : Slots) (e : Equation) : (s.setCurrent e).current = e := by
  simp [current, setCurrent]

@[simp] theorem setCurrent_current (s : Slots) : s.setCurrent s.current = s := by
  simp [current, setCurrent]

@[simp] theorem setCurrent_setCurrent (s : Slots) (e f : Equation) :
    (s.setCurrent e).setCurrent f = s.setCurrent f := by
  simp [setCurrent]

@[simp] theorem prev_next (s : Slots) : s.next.prev = s :=
  have back : ∀ i : Fin slotCount, i + 1 - 1 = i := by decide
  congrArg (Slots.mk s.equations) (back s.active)

@[simp] theorem next_prev (s : Slots) : s.prev.next = s :=
  have back : ∀ i : Fin slotCount, i - 1 + 1 = i := by decide
  congrArg (Slots.mk s.equations) (back s.active)

end Slots

end PolishPlotter.Controls
