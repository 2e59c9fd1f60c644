import PolishPlotter.Proofs.Session.Numbers

set_option autoImplicit false

namespace PolishPlotter

open Controls Machine

/-- An instruction whose text stands for it: the change of sign is shown as a sign that no word
holds, and what is not a number cannot be typed. -/
def Machine.Instruction.isTypeable : Instruction → Bool
  | .literal v => v.isFinite
  | .neg => false
  | _ => true

namespace Command

variable {vars : Vars} {word : String} {text whole fraction : List Char} {i : Instruction}

theorem instruction?_text (names : vars.names = variableNames) (bound : i.Bound vars)
    (typeable : i.isTypeable = true) (other : ∀ v, i ≠ .literal v) :
    instruction? vars i.text = some i := by
  cases bound with
  | literal v => exact absurd rfl (other v)
  | neg => cases typeable
  | dup => rfl
  | binary op => cases op <;> rfl
  | @apply f found =>
    have member : f.name ∈ Function.names :=
      List.mem_map_of_mem (List.mem_of_find?_eq_some found)
    have free : ∀ name ∈ Function.names, BinaryOp.labelled? name = none ∧ name ≠ "dup" := by decide
    obtain ⟨unlabelled, dup⟩ := free f.name member
    simp [instruction?, Instruction.text, unlabelled, dup, found]
  | @push var found =>
    have member : var.name ∈ variableNames := by
      rw [← names]
      exact List.mem_of_getElem? (Vars.lookup?_eq_some found).2
    have free : ∀ name ∈ variableNames, BinaryOp.labelled? name = none ∧ name ≠ "dup" ∧
        (Function.lookup? name).isNone := by decide
    obtain ⟨unlabelled, dup, unknown⟩ := free var.name member
    simp [instruction?, Instruction.text, unlabelled, dup, Option.isNone_iff_eq_none.mp unknown,
      found]

theorem IsNumber.of_numeral {negative : Bool} (numeral : Decimal.Numeral text whole fraction)
    (spelled : word.toList = if negative then '-' :: text else text) :
    IsNumber word negative text := by
  have digits := Unsigned.of_numeral numeral
  obtain ⟨c, rest, rfl, digit⟩ := numeral.first
  exact ⟨spelled, digits.plain, digits.point, c, List.mem_cons_self, digit⟩

end Command

namespace Session

variable {s : Session} {text whole fraction : List Char} {i : Instruction}

theorem apply_add (s : Session) (proper : i.isNoop = false) :
    s.apply (.add i) = .ok ⟨s.appended .empty [i], .redraw, [s.addNotice i]⟩ := by
  have pushed : s.slots.current.push i = .ok (s.slots.current.append [i]) := by
    simp [Equation.push, Equation.append, proper]
  simp only [apply, add, endEntry, pushed]
  rfl

-- An instruction is pushed, or its number is typed.
theorem attempt_text (names : s.vars.names = Command.variableNames) (bound : i.Bound s.vars)
    (typeable : i.isTypeable = true) (words : List String) :
    ∃ command keypad notices, command.argumentCount = 0 ∧
      s.attempt i.text words = .ok (command, ⟨s.appended keypad [i], .redraw, notices⟩) := by
  by_cases literal : ∃ v, i = .literal v
  · obtain ⟨v, rfl⟩ := literal
    obtain ⟨whole, fraction, numeral, -⟩ :=
      Decimal.unsignedText_numeral (Binary64.isFinite_iff.mp typeable)
    have isNumber := Command.IsNumber.of_numeral numeral (Decimal.toList_plain typeable)
    have typed := s.attempt_number names isNumber words
    rw [Keypad.value_of_readChars? (Decimal.readChars?_plain typeable)] at typed
    exact ⟨_, ⟨(Decimal.plain v).toList, true⟩, [], rfl, typed⟩
  · have given := Command.instruction?_text names bound typeable fun v same => literal ⟨v, same⟩
    have reads : Command.read s.vars i.text words = .ok (.add i) := by
      simp only [Command.read, given]
    exact ⟨_, _, _, rfl, attempt_eq_ok.mpr ⟨reads, s.apply_add bound.proper⟩⟩

theorem enterWords_texts {instructions : List Instruction}
    (names : s.vars.names = Command.variableNames) (bound : ∀ i ∈ instructions, i.Bound s.vars)
    (typeable : ∀ i ∈ instructions, i.isTypeable = true) :
    ∃ keypad notices, s.enterWords 0 (instructions.map (·.text)) =
      ⟨s.appended keypad instructions, .redraw, notices⟩ := by
  induction instructions generalizing s with
  | nil => exact ⟨s.keypad, [], by simp [enterWords, redraw, appended]⟩
  | cons i rest ih =>
    rw [List.forall_mem_cons] at bound typeable
    obtain ⟨command, keypad, notices, alone, attempted⟩ :=
      attempt_text names bound.1 typeable.1 (rest.map (·.text))
    obtain ⟨k, later, typed⟩ := @ih (s.appended keypad [i]) names bound.2 typeable.2
    refine ⟨k, notices ++ later, ?_⟩
    rw [List.map_cons, enterWords_next attempted, alone, typed]
    simp [Reply.after, appended]

theorem isWord_text (names : s.vars.names = Command.variableNames) (bound : i.Bound s.vars)
    (typeable : i.isTypeable = true) : IsWord i.text := by
  by_cases literal : ∃ v, i = .literal v
  · obtain ⟨v, rfl⟩ := literal
    obtain ⟨whole, fraction, numeral, -⟩ :=
      Decimal.unsignedText_numeral (Binary64.isFinite_iff.mp typeable)
    exact (Command.IsNumber.of_numeral numeral (Decimal.toList_plain typeable)).isWord
  · have given := Command.instruction?_text names bound typeable fun v same => literal ⟨v, same⟩
    have named : i.text ∈ Command.reserved := by
      by_contra other
      rw [(Command.instruction?_eq_none_iff names).mpr other] at given
      cases given
    have given : ∀ name ∈ Command.reserved, name ≠ "" := by decide
    have visible : ∀ name ∈ Command.reserved,
        (name.toList.all fun c => 0x20 < c.toNat && c.toNat < 0x7F) = true := by decide
    refine ⟨given _ named, fun c member => ?_⟩
    have range := List.all_eq_true.mp (visible _ named) c member
    simp only [Bool.and_eq_true, decide_eq_true_eq] at range
    exact isWhiteSpace_of_visible range.1 range.2

def cleared (s : Session) : Session :=
  { s with keypad := .empty, slots := s.slots.setCurrent s.slots.current.clear }

theorem enter_clear (names : s.vars.names = Command.variableNames) {line : String}
    {rest : List String} (split : words line = "clear" :: rest) :
    s.enter line = s.cleared.enterWords 0 rest := by
  rw [enter_eq, split, enterWords_keyed (t := s.cleared) names (by decide) rfl rfl]
  simp [Reply.after, Command.argumentCount]

theorem words_clear {list : List String} (all : ∀ word ∈ list, IsWord word) :
    words ("clear " ++ " ".intercalate list) = "clear" :: list := by
  have apart : "clear " = "clear" ++ " " := rfl
  have alone : words "clear" = ["clear"] := by decide
  rw [apart, words_append_space, alone, words_intercalate all]
  rfl

theorem transcript_retyped {settings other : Settings} {t : Session}
    (reachable : Reachable settings s)
    (typeable : ∀ i ∈ s.slots.current.instructions, i.isTypeable = true)
    (elsewhere : Reachable other t) :
    let reply := t.enter ("clear " ++ s.slots.current.transcript none)
    reply.event = .redraw ∧
      reply.session.slots.current =
        { t.slots.current with instructions := s.slots.current.instructions } ∧
      reply.session.slots.active = t.slots.active ∧
      (∀ index : Fin slotCount, index ≠ t.slots.active →
        reply.session.slots.equations[index] = t.slots.equations[index]) ∧
      ∃ keypad slots, reply.session = { t with keypad, slots } := by
  have names := reachable.wellFormed.names
  have namesElsewhere := elsewhere.wellFormed.names
  have bound : ∀ i ∈ s.slots.current.instructions, i.Bound s.vars :=
    reachable.wellFormed.bound _ (Vector.getElem_mem _)
  have boundElsewhere : ∀ i ∈ s.slots.current.instructions, i.Bound t.cleared.vars :=
    fun i inside => (bound i inside).of_names (namesElsewhere.trans names.symm)
  have isWord : ∀ word ∈ s.slots.current.instructions.map (·.text), IsWord word := by
    intro word member
    obtain ⟨i, inside, rfl⟩ := List.mem_map.mp member
    exact isWord_text names (bound i inside) (typeable i inside)
  obtain ⟨keypad, notices, typed⟩ :=
    enterWords_texts (s := t.cleared) namesElsewhere boundElsewhere typeable
  have entered := enter_clear namesElsewhere (words_clear isWord)
  rw [typed] at entered
  have transcript : s.slots.current.transcript none =
      " ".intercalate (s.slots.current.instructions.map (·.text)) := rfl
  simp only [transcript, entered]
  refine ⟨trivial, ?_, rfl, ?_, keypad, _, rfl⟩
  · simp [appended, cleared, Equation.append, Equation.clear]
  · intro index apart
    have position : (t.slots.active : Nat) ≠ index := fun same => apart (Fin.ext same.symm)
    simp [appended, cleared, Slots.setCurrent, Vector.getElem_set_ne, position]

-- Numbers side by side, two of them signed, one of them a zero.
def mixed : Session := ((new .default).enter "clear -0 12 -3.5 x sin mod dup").session

def elsewhere : Session := ((new .default).enter "down 7").session

theorem mixed_retyped :
    Reachable .default mixed ∧ (∀ i ∈ mixed.slots.current.instructions, i.isTypeable = true) ∧
      Reachable .default elsewhere ∧
      mixed.slots.current.transcript none = "-0 12 -3.5 x sin mod dup" ∧
      (elsewhere.enter "clear -0 12 -3.5 x sin mod dup").event = .redraw ∧
      (elsewhere.enter "clear -0 12 -3.5 x sin mod dup").session.slots.current.instructions =
        mixed.slots.current.instructions := by
  have given : Reachable .default mixed := .enter _ .new
  have other : Reachable .default elsewhere := .enter _ .new
  have typeable : ∀ i ∈ mixed.slots.current.instructions, i.isTypeable = true := by
    rw [mixed, enter_eq]
    decide +kernel
  have shown : mixed.slots.current.transcript none = "-0 12 -3.5 x sin mod dup" := by
    rw [mixed, enter_eq]
    decide +kernel
  obtain ⟨redrawn, same, -⟩ := transcript_retyped given typeable other
  have line : "clear " ++ mixed.slots.current.transcript none =
      "clear -0 12 -3.5 x sin mod dup" := by
    rw [shown]
    decide
  rw [line] at redrawn same
  exact ⟨given, typeable, other, shown, redrawn, by rw [same]⟩

end Session

end PolishPlotter
