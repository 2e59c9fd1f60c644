import PolishPlotter.Proofs.Controls.Entry

set_option autoImplicit false

namespace PolishPlotter.Controls

open Machine

theorem Keypad.key_backspace (text : List Char) :
    (Keypad.mk text true).key Keypad.backspace =
      if text.dropLast = [] ∨ text.dropLast = ['-'] then (.popLast, .empty)
      else (.replaceLast (Keypad.literal ⟨text.dropLast, true⟩), ⟨text.dropLast, true⟩) := rfl

inductive Coherent : Keypad → List Instruction → Prop
  | idle (instructions : List Instruction) : Coherent .empty instructions
  | typing {text : List Char} (entry : Entry text) (front : List Instruction) :
    Coherent ⟨text, true⟩ (front ++ [.literal (Keypad.value text)])

namespace Coherent

variable {k : Keypad} {e : Equation} {text : List Char} {c : Char}

theorem text_eq_nil_iff {instructions : List Instruction} (coherent : Coherent k instructions) :
    k.text = [] ↔ k.inProgress = false := by
  cases coherent with
  | idle => exact ⟨fun _ => rfl, fun _ => rfl⟩
  | typing entry front =>
    constructor
    · intro none_typed
      exact absurd none_typed entry.ne_nil
    · intro stopped
      cases stopped

theorem empty_of_idle {instructions : List Instruction} (coherent : Coherent k instructions)
    (idle : k.inProgress = false) : k = .empty := by
  cases coherent with
  | idle => rfl
  | typing => cases idle

-- The last instruction gives way to the literal of the changed entry.
theorem replaceLast (entry : Entry text) (e : Equation) :
    ∃ f, (Edit.replaceLast (Keypad.literal ⟨text, true⟩)).apply e = .ok f ∧
      Coherent ⟨text, true⟩ f.instructions :=
  ⟨_, rfl, .typing entry _⟩

theorem digit (coherent : Coherent k e.instructions) (plain : c.isDigit = true ∨ c = '.')
    (fresh : c = '.' → '.' ∉ k.text) :
    ∃ f, (k.digit c).1.apply e = .ok f ∧ Coherent (k.digit c).2 f.instructions := by
  generalize e.instructions = instructions at coherent
  cases coherent with
  | idle => exact ⟨_, rfl, .typing (.single plain) _⟩
  | typing entry front => exact replaceLast (entry.append plain fresh) e

theorem sign (coherent : Coherent k e.instructions) :
    ∃ f, (k.key Keypad.sign).1.apply e = .ok f ∧
      Coherent (k.key Keypad.sign).2 f.instructions := by
  generalize e.instructions = instructions at coherent
  cases coherent with
  | idle => exact ⟨_, rfl, .idle _⟩
  | typing entry front => exact replaceLast entry.toggleSign e

theorem backspace (coherent : Coherent k e.instructions) :
    ∃ f, (k.key Keypad.backspace).1.apply e = .ok f ∧
      Coherent (k.key Keypad.backspace).2 f.instructions := by
  generalize e.instructions = instructions at coherent
  cases coherent with
  | idle => exact ⟨_, rfl, .idle _⟩
  | @typing text entry front =>
    rw [Keypad.key_backspace]
    by_cases finished : text.dropLast = [] ∨ text.dropLast = ['-']
    · rw [if_pos finished]
      exact ⟨_, rfl, .idle _⟩
    · rw [if_neg finished]
      rw [not_or] at finished
      exact replaceLast (entry.dropLast finished.1 finished.2) e

theorem key (coherent : Coherent k e.instructions) (c : Char) :
    ∃ f, (k.key c).1.apply e = .ok f ∧ Coherent (k.key c).2 f.instructions := by
  by_cases isDigit : c.isDigit = true
  · have typed : k.key c = k.digit c := by simp [Keypad.key, isDigit]
    rw [typed]
    refine coherent.digit (.inl isDigit) ?_
    intro isPoint
    rw [isPoint] at isDigit
    cases isDigit
  by_cases isPoint : c = '.'
  · subst isPoint
    by_cases pointed : '.' ∈ k.text
    · have ignored : k.key '.' = (.none, k) := by simp [Keypad.key, pointed]
      rw [ignored]
      exact ⟨e, rfl, coherent⟩
    · have typed : k.key '.' = k.digit '.' := by simp [Keypad.key, pointed]
      rw [typed]
      exact coherent.digit (.inr rfl) (fun _ => pointed)
  by_cases isSign : c = Keypad.sign
  · rw [isSign]
    exact coherent.sign
  by_cases isBackspace : c = Keypad.backspace
  · rw [isBackspace]
    exact coherent.backspace
  have ignored : k.key c = (.none, k) := by
    simp [Keypad.key, isDigit, isPoint, isSign, isBackspace]
  rw [ignored]
  exact ⟨e, rfl, coherent⟩

-- However many keys are pressed in a row, each edit is taken and the two stay in step.
theorem type (coherent : Coherent k e.instructions) (keys : List Char) :
    ∃ l f, k.type e keys = .ok (l, f) ∧ Coherent l f.instructions := by
  induction keys generalizing k e with
  | nil => exact ⟨k, e, rfl, coherent⟩
  | cons c rest ih =>
    obtain ⟨f, applied, next⟩ := coherent.key c
    obtain ⟨l, g, typed, last⟩ := ih next
    refine ⟨l, g, ?_, last⟩
    simp only [Keypad.type, applied, typed]

end Coherent

end PolishPlotter.Controls
