import PolishPlotter.Proofs.Controls.Typing
import PolishPlotter.Proofs.Session.Vocabulary

set_option autoImplicit false

namespace PolishPlotter

open Controls Machine

namespace Command.IsNumber

variable {word : String} {negative : Bool} {digits : List Char}

theorem entry (isNumber : IsNumber word negative digits) : Entry word.toList := by
  rw [isNumber.spelled]
  cases negative with
  | false => exact .positive isNumber.unsigned
  | true => exact .negative isNumber.unsigned

theorem ne_point (isNumber : IsNumber word negative digits) : digits ≠ ['.'] := by
  rintro rfl
  obtain ⟨c, member, digit⟩ := isNumber.digit
  rw [List.mem_singleton.mp member] at digit
  cases digit

theorem read? (isNumber : IsNumber word negative digits) :
    Decimal.read? word = some (Keypad.value word.toList) := by
  have given := isNumber.ne_point
  have signless := isNumber.unsigned.sign_not_mem
  refine isNumber.entry.readChars?_eq_value ?_ ?_ <;> rw [isNumber.spelled]
  · cases negative <;> simp [given]
  · cases negative with
    | false =>
      rintro rfl
      exact signless List.mem_cons_self
    | true => simpa using given

theorem isWord (isNumber : IsNumber word negative digits) : IsWord word := by
  have solid : ∀ c ∈ digits, isWhiteSpace c = false := by
    intro c member
    rcases isNumber.plain c member with digit | rfl
    · have range := Decimal.toNat_of_isDigit digit
      exact isWhiteSpace_of_visible (by omega) (by omega)
    · rfl
  constructor
  · rintro rfl
    exact isNumber.entry.ne_nil rfl
  · rw [isNumber.spelled]
    cases negative with
    | false => exact solid
    | true => exact List.forall_mem_cons.mpr ⟨rfl, solid⟩

end Command.IsNumber

namespace Session

variable {settings : Settings} {s : Session} {word : String} {negative : Bool}
  {digits : List Char}

def appended (s : Session) (keypad : Keypad) (instructions : List Instruction) : Session :=
  { s with keypad, slots := s.slots.setCurrent (s.slots.current.append instructions) }

@[simp] theorem current_appended (s : Session) (keypad : Keypad)
    (instructions : List Instruction) :
    (s.appended keypad instructions).slots.current = s.slots.current.append instructions := by
  simp [appended]

theorem number_eq (s : Session) (isNumber : Command.IsNumber word negative digits) :
    s.number negative digits =
      .ok (s.appended ⟨word.toList, true⟩ [.literal (Keypad.value word.toList)]) := by
  have typed := Keypad.type_unsigned (e := s.slots.current) isNumber.unsigned
  rw [isNumber.spelled]
  cases negative with
  | false => simp [number, typed, appended]
  | true =>
    have toggled := isNumber.unsigned.toggleSign
    simp [number, typed, key, Keypad.key, Keypad.sign, toggled, Edit.apply, Equation.replaceLast,
      Equation.append, Keypad.literal, Instruction.isNoop, appended]

theorem attempt_number (names : s.vars.names = Command.variableNames)
    (isNumber : Command.IsNumber word negative digits) (words : List String) :
    s.attempt word words = .ok (.number negative digits,
      ⟨s.appended ⟨word.toList, true⟩ [.literal (Keypad.value word.toList)], .redraw, []⟩) := by
  refine attempt_eq_ok.mpr ⟨Command.read_number names isNumber words, ?_⟩
  simp only [apply, s.number_eq isNumber]
  rfl

theorem number_entered (reachable : Reachable settings s)
    (isNumber : Command.IsNumber word negative digits) :
    ∃ v, Decimal.read? word = some v ∧
      s.enter word =
        ⟨{ s with
            keypad := ⟨word.toList, true⟩
            slots := s.slots.setCurrent { s.slots.current with
              instructions := s.slots.current.instructions ++ [.literal v] } }, .redraw, []⟩ ∧
      (s.enter word).session.keypad.entry? = some word ∧
      (s.enter word).session.transcript =
        " ".intercalate (s.slots.current.instructions.map (·.text) ++ [word]) := by
  refine ⟨Keypad.value word.toList, isNumber.read?, ?_⟩
  have names : s.vars.names = Command.variableNames := reachable.wellFormed.names
  have entered : s.enter word =
      ⟨s.appended ⟨word.toList, true⟩ [.literal (Keypad.value word.toList)], .redraw, []⟩ := by
    rw [enter_eq, words_of_isWord isNumber.isWord, enterWords_next (attempt_number names isNumber []),
      enterWords_nil]
    rfl
  rw [entered]
  refine ⟨rfl, by simp [appended, Keypad.entry?], ?_⟩
  have last := congrArg Equation.instructions
    (s.current_appended ⟨word.toList, true⟩ [.literal (Keypad.value word.toList)])
  simpa using transcript_of_typing rfl last

-- An entry ends in a point, and the next number is a zero with a sign.
def pending : Session := ((new .default).enter "clear 2 12.").session

theorem zero_keeps_sign :
    Reachable .default pending ∧ pending.keypad.entry? = some "12." ∧
      (pending.enter "-0").event = .redraw ∧
      (pending.enter "-0").session.transcript = "2 12 -0" ∧
      ∃ v : Float, v.toBits = 0x8000000000000000 ∧
        (pending.enter "-0").session.slots.current.instructions =
          pending.slots.current.instructions ++ [.literal v] := by
  have reachable : Reachable .default pending := .enter _ .new
  have isNumber : Command.IsNumber "-0" true ['0'] := Command.number?_eq_some_iff.mp rfl
  have before : pending.slots.current.instructions.map (·.text) = ["2", "12"] := by
    rw [pending, enter_eq]
    decide +kernel
  have typed : pending.keypad.entry? = some "12." := by
    rw [pending, enter_eq]
    decide +kernel
  have bits : (Decimal.read? "-0").map (·.toBits) = some 0x8000000000000000 := by decide +kernel
  obtain ⟨v, read, entered, -, shown⟩ := number_entered reachable isNumber
  rw [before] at shown
  rw [read] at bits
  refine ⟨reachable, typed, by rw [entered], shown.trans (by decide), v,
    Option.some.inj bits, ?_⟩
  simp [entered]

end Session

end PolishPlotter
