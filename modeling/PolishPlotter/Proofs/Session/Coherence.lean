import PolishPlotter.Proofs.Controls.Undo
import PolishPlotter.Proofs.Session.Reachable

set_option autoImplicit false

namespace PolishPlotter

open Controls Machine

-- The commands that may change the keypad or the slots.
def Command.edits : Command → Bool
  | .add _ | .number _ _ | .backspace | .negate | .clear | .up | .down => true
  | _ => false

namespace Session

variable {settings : Settings} {s : Session} {command : Command} {reply : Reply}

theorem apply_keeps_slots (other : command.edits = false) (applied : s.apply command = .ok reply) :
    reply.session.keypad = s.keypad ∧ reply.session.slots = s.slots := by
  cases command with
  | add | number | backspace | negate | clear | up | down => cases other
  | zoomIn | zoomOut | pan | stick | resetView | move | trace | traceAt | snap | quit =>
    cases applied
    exact ⟨rfl, rfl⟩
  | set name | range name | minimum name | maximum name | reset name =>
    simp only [apply] at applied
    cases found : s.slider name with
    | error refusal =>
      rw [found] at applied
      cases applied
    | ok slider =>
      rw [found] at applied
      cases applied
      exact ⟨rfl, rfl⟩

def Coherent (s : Session) : Prop := Controls.Coherent s.keypad s.slots.current.instructions

-- Only a keypad in use ties it to a slot.
theorem coherent_of_empty (empty : s.keypad = .empty) : s.Coherent := by
  unfold Coherent
  rw [empty]
  exact .idle _

theorem Coherent.key (coherent : s.Coherent) (c : Char) :
    ∃ t, s.key c = .ok t ∧ t.Coherent := by
  obtain ⟨e, applied, next⟩ := Controls.Coherent.key coherent c
  refine ⟨{ s with keypad := (s.keypad.key c).2, slots := s.slots.setCurrent e }, ?_, ?_⟩
  · simp only [Session.key, applied]
  · simpa [Coherent] using next

theorem number_coherent (s : Session) (negative : Bool) (digits : List Char) :
    ∃ t, s.number negative digits = .ok t ∧ t.Coherent := by
  obtain ⟨k, e, typed, next⟩ :=
    (Controls.Coherent.idle s.slots.current.instructions).type (e := s.slots.current) digits
  have coherent : Coherent { s with keypad := k, slots := s.slots.setCurrent e } := by
    simpa [Coherent] using next
  cases negative with
  | false => exact ⟨_, by simp [number, typed], coherent⟩
  | true =>
    obtain ⟨t, toggled, last⟩ := coherent.key Keypad.sign
    exact ⟨t, by simp [number, typed, toggled], last⟩

theorem Coherent.apply (coherent : s.Coherent) (applied : s.apply command = .ok reply) :
    reply.session.Coherent := by
  by_cases other : command.edits = false
  · obtain ⟨keypad, slots⟩ := apply_keeps_slots other applied
    unfold Coherent
    rw [keypad, slots]
    exact coherent
  cases command with
  | add i =>
    simp only [Session.apply, add] at applied
    split at applied
    · cases applied
      exact coherent_of_empty rfl
    · cases applied
  | number negative digits =>
    obtain ⟨t, typed, next⟩ := s.number_coherent negative digits
    simp only [Session.apply, typed] at applied
    cases applied
    exact next
  | backspace =>
    obtain ⟨t, pressed, next⟩ := coherent.key Keypad.backspace
    simp only [Session.apply, pressed] at applied
    cases applied
    exact next
  | negate =>
    obtain ⟨t, pressed, next⟩ := coherent.key Keypad.sign
    simp only [Session.apply, pressed] at applied
    cases applied
    exact next
  | clear | up | down =>
    cases applied
    exact coherent_of_empty rfl
  | _ => exact absurd rfl other

theorem Reachable.coherent (reachable : Reachable settings s) : s.Coherent := by
  refine reachable.invariant (coherent_of_empty rfl) ?_ ?_
  · intro s word rest command reply coherent _ applied
    exact coherent.apply applied
  · intro s _
    exact coherent_of_empty rfl

theorem transcript_of_typing {text : List Char} {front : List Instruction} {i : Instruction}
    (keypad : s.keypad = ⟨text, true⟩) (shown : s.slots.current.instructions = front ++ [i]) :
    s.transcript = " ".intercalate (front.map (·.text) ++ [String.ofList text]) := by
  unfold transcript Equation.transcript
  rw [keypad, shown]
  cases front with
  | nil => rfl
  | cons j rest =>
    change " ".intercalate ((j :: rest ++ [i]).dropLast.map (·.text) ++ [String.ofList text]) = _
    rw [List.dropLast_concat]

theorem slotTranscript_active (s : Session) : s.slotTranscript s.slots.active = s.transcript := by
  have current : s.slots.get? s.slots.active = some s.slots.current := by
    simp [Slots.get?, Slots.current]
  unfold slotTranscript
  rw [current]
  simp only [if_pos, transcript]

theorem keypad_coherent (reachable : Reachable settings s) :
    (s.keypad.text = [] ↔ s.keypad.inProgress = false) ∧
    (s.keypad.inProgress = true →
      Entry s.keypad.text ∧
      ∃ front v, s.slots.current.instructions = front ++ [.literal v] ∧
        (s.keypad.text = ['.'] ∨ s.keypad.text = ['-', '.'] → v = 0) ∧
        (s.keypad.text ≠ ['.'] → s.keypad.text ≠ ['-', '.'] →
          Decimal.readChars? s.keypad.text = some v) ∧
        s.transcript = " ".intercalate (front.map (·.text) ++ [String.ofList s.keypad.text]) ∧
        s.slotTranscript s.slots.active = s.transcript) := by
  have coherent : Controls.Coherent s.keypad s.slots.current.instructions := reachable.coherent
  refine ⟨coherent.text_eq_nil_iff, ?_⟩
  intro inProgress
  generalize keypad : s.keypad = k at coherent inProgress ⊢
  generalize shown : s.slots.current.instructions = instructions at coherent ⊢
  cases coherent with
  | idle => cases inProgress
  | @typing text entry front =>
    refine ⟨entry, front, Keypad.value text, rfl, ?_, ?_, ?_⟩
    · exact Entry.value_of_point
    · exact entry.readChars?_eq_value
    · exact ⟨transcript_of_typing keypad shown, slotTranscript_active s⟩

-- The sign comes last, and goes before the digits.
def typed : Session := ((new .default).enter "clear 2 12. neg").session

theorem keypad_typed : typed.keypad = ⟨['-', '1', '2', '.'], true⟩ := by
  rw [typed, enter_eq]
  decide

theorem transcript_typed :
    Reachable .default typed ∧ typed.keypad = ⟨['-', '1', '2', '.'], true⟩ ∧
      typed.transcript = "2 -12." := by
  have reachable : Reachable .default typed := .enter _ .new
  have before : typed.slots.current.instructions.dropLast.map (·.text) = ["2"] := by
    rw [typed, enter_eq]
    decide +kernel
  obtain ⟨-, front, v, shown, -, -, transcript, -⟩ :=
    (keypad_coherent reachable).2 (by rw [keypad_typed])
  rw [shown, List.dropLast_concat] at before
  rw [before, keypad_typed] at transcript
  exact ⟨reachable, keypad_typed, transcript.trans (by decide)⟩

theorem keys_undone :
    (∀ settings s, Reachable settings s → s.keypad.Built ∧ s.keypad.InStep s.slots.current) ∧
    (∀ (k : Keypad) (e : Equation), k.Built → k.InStep e →
      (∀ c, c.isDigit = true ∨ c = '.' → (k.key c).1 ≠ .none →
        k.type e [c, Keypad.backspace] = .ok (k, e)) ∧
      (k.inProgress = true → k.type e [Keypad.sign, Keypad.sign] = .ok (k, e))) ∧
    ∀ (k : Keypad) (e : Equation), k.InStep e → k.inProgress = false →
      ∀ text : List Char, (∀ c ∈ text, c.isDigit = true ∨ c = '.') → text.count '.' ≤ 1 →
        ∃ l f, k.type e text = .ok (l, f) ∧
          l.type f (.replicate text.length Keypad.backspace) = .ok (k, e) ∧
          ∀ first keys, text = first :: keys.filter (· ≠ Keypad.sign) →
            keys.count Keypad.sign % 2 = 0 → k.type e (first :: keys) = .ok (l, f) := by
  refine ⟨?_, ?_, ?_⟩
  · intro settings s reachable
    exact Keypad.coherent_iff.mp reachable.coherent
  · intro k e built inStep
    have coherent := Keypad.coherent_iff.mpr ⟨built, inStep⟩
    exact ⟨fun c => Keypad.type_undone coherent, Keypad.type_signs coherent⟩
  · intro k e inStep stopped text plain point
    obtain rfl : k = .empty := by
      cases k
      simp only [Keypad.empty, Keypad.mk.injEq]
      exact ⟨inStep.idle stopped, stopped⟩
    exact Keypad.number_undone plain point e

-- After `-12.` a digit is taken, and the two signs around the `5` need not be neighbours.
theorem point_undone :
    typed.keypad.type typed.slots.current ['5', Keypad.backspace] =
        .ok (typed.keypad, typed.slots.current) ∧
      typed.keypad.type typed.slots.current [Keypad.sign, Keypad.sign] =
        .ok (typed.keypad, typed.slots.current) ∧
      ∃ l f, Keypad.empty.type typed.slots.current ['.', '5'] = .ok (l, f) ∧
        l.type f [Keypad.backspace, Keypad.backspace] = .ok (.empty, typed.slots.current) ∧
        Keypad.empty.type typed.slots.current ['.', '-', '5', '-'] = .ok (l, f) := by
  obtain ⟨reached, undone, numbers⟩ := keys_undone
  obtain ⟨built, inStep⟩ := reached .default typed (.enter _ .new)
  obtain ⟨digits, signs⟩ := undone _ _ built inStep
  obtain ⟨l, f, done, taken, signed⟩ := numbers .empty typed.slots.current ⟨fun _ => rfl, nofun⟩ rfl
    ['.', '5'] (by simp) (by decide)
  have pressed : (typed.keypad.key '5').1 ≠ .none := by
    rw [keypad_typed]
    exact nofun
  exact ⟨digits '5' (.inl rfl) pressed, signs (by rw [keypad_typed]), l, f, done, taken,
    signed '.' ['-', '5', '-'] (by decide) (by decide)⟩

end Session

end PolishPlotter
