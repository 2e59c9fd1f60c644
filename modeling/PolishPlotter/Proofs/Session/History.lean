import PolishPlotter.Proofs.Machine.Depth
import PolishPlotter.Proofs.Screen.Scan
import PolishPlotter.Proofs.Session.Ending
import PolishPlotter.Proofs.Session.WellFormed

set_option autoImplicit false

namespace PolishPlotter

open Controls Machine Screen

namespace Command

def turns (commands : List Command) : Int :=
  commands.countP isDown - commands.countP isUp

@[simp] theorem turns_append (front back : List Command) :
    turns (front ++ back) = turns front + turns back := by
  simp only [turns, List.countP_append]
  omega

variable {command : Command} {name : String}

theorem turns_of_stays (stays : command.isDown = false ∧ command.isUp = false) :
    turns [command] = 0 := by
  simp [turns, stays.1, stays.2]

theorem stays_of_rest (rest : command.edits = false) :
    command.isDown = false ∧ command.isUp = false := by
  cases command with
  | down | up => cases rest
  | _ => exact ⟨rfl, rfl⟩

theorem rest_of_slider (named : command.slider? = some name) : command.edits = false := by
  cases command with
  | set | range | minimum | maximum | reset => rfl
  | _ => cases named

theorem rest_of_ends (ends : command.ends = true) : command.edits = false := by
  cases command with
  | move | trace | traceAt | snap | quit => rfl
  | _ => cases ends

end Command

namespace Controls.Slots

theorem val_next (slots : Slots) : (slots.next.active.val : Int) = (slots.active.val + 1) % 4 := by
  have turned : ∀ i : Fin slotCount, ((i + 1).val : Int) = (i.val + 1) % 4 := by decide
  exact turned slots.active

theorem val_prev (slots : Slots) : (slots.prev.active.val : Int) = (slots.active.val - 1) % 4 := by
  have turned : ∀ i : Fin slotCount, ((i - 1).val : Int) = (i.val - 1) % 4 := by decide
  exact turned slots.active

end Controls.Slots

namespace Session

inductive Input
  | line (text : String)
  | interrupt

def run : Session → List Input → Session
  | s, [] => s
  | s, .line text :: rest => run (s.enter text).session rest
  | s, .interrupt :: rest => run s.interrupt rest

-- The commands that are carried out in a run.
def history : Session → List Input → List Command
  | _, [] => []
  | s, .line text :: rest => s.executed 0 (words text) ++ history (s.enter text).session rest
  | s, .interrupt :: rest => history s.interrupt rest

variable {settings : Settings} {s t : Session} {command : Command} {reply : Reply}

theorem Reachable.run (reachable : Reachable settings s) (inputs : List Input) :
    Reachable settings (s.run inputs) := by
  induction inputs generalizing s with
  | nil => exact reachable
  | cons input rest ih =>
    cases input with
    | line text => exact ih (.enter text reachable)
    | interrupt => exact ih (.interrupt reachable)

theorem run_append (s : Session) (front back : List Input) :
    s.run (front ++ back) = (s.run front).run back := by
  induction front generalizing s with
  | nil => rfl
  | cons input rest ih =>
    cases input with
    | line text => exact ih (s.enter text).session
    | interrupt => exact ih s.interrupt

theorem reachable_iff : Reachable settings s ↔ ∃ inputs, s = (new settings).run inputs := by
  constructor
  · intro reachable
    induction reachable with
    | new => exact ⟨[], rfl⟩
    | enter line earlier ih =>
      obtain ⟨inputs, rfl⟩ := ih
      exact ⟨inputs ++ [.line line], by rw [run_append]; rfl⟩
    | interrupt earlier ih =>
      obtain ⟨inputs, rfl⟩ := ih
      exact ⟨inputs ++ [.interrupt], by rw [run_append]; rfl⟩
  · rintro ⟨inputs, rfl⟩
    exact Reachable.new.run inputs

def Turned (s t : Session) (commands : List Command) : Prop :=
  (t.slots.active.val : Int) = (s.slots.active.val + Command.turns commands) % 4

theorem Turned.refl (s : Session) : Turned s s [] := by
  have bound : s.slots.active.val < 4 := s.slots.active.isLt
  simp only [Turned, Command.turns, List.countP_nil]
  omega

theorem Turned.trans {u : Session} {front back : List Command} (first : Turned s t front)
    (second : Turned t u back) : Turned s u (front ++ back) := by
  simp only [Turned, Command.turns_append] at *
  omega

theorem Turned.of_stays (stays : command.isDown = false ∧ command.isUp = false)
    (same : t.slots.active = s.slots.active) : Turned s t [command] := by
  have bound : s.slots.active.val < 4 := s.slots.active.isLt
  rw [Turned, Command.turns_of_stays stays, same]
  omega

theorem Turned.apply (proper : command.isProper = true) (done : s.apply command = .ok reply) :
    Turned s reply.session [command] := by
  have applied := s.apply_applied proper
  rw [done] at applied
  cases applied with
  | edited edited =>
    cases edited with
    | down => exact s.slots.val_next
    | up => exact s.slots.val_prev
    | written e stays => exact .of_stays stays rfl
  | viewed rest => exact .of_stays (Command.stays_of_rest rest) rfl
  | slid named =>
    exact .of_stays (Command.stays_of_rest (Command.rest_of_slider named)) rfl
  | ended ends => exact .of_stays (Command.stays_of_rest (Command.rest_of_ends ends)) rfl

theorem Turned.attempt {key : String} {words : List String}
    (attempted : s.attempt key words = .ok (command, reply)) :
    Turned s reply.session [command] := by
  obtain ⟨reads, done⟩ := attempt_eq_ok.mp attempted
  exact .apply (Command.isProper_of_read reads) done

theorem enterWords_turned (s : Session) (taken : Nat) (words : List String) :
    Turned s (s.enterWords taken words).session (s.executed taken words) := by
  induction s, taken, words using line_induction with
  | nil s taken =>
    rw [enterWords_nil, executed_of_taken s (Nat.zero_le taken)]
    exact .refl s
  | skip s taken word rest ih => exact ih
  | last s key rest ended =>
    rw [enterWords_last ended]
    rcases last_cases ended with ⟨refusal, -, answered, none⟩ | ⟨command, attempted, only⟩
    · rw [answered, none]
      exact .refl s
    · rw [only]
      exact .attempt attempted
  | next s key rest command t notices attempted ih =>
    rw [enterWords_next attempted, executed_next attempted]
    exact (Turned.attempt attempted).trans ih

theorem run_turned (s : Session) (inputs : List Input) :
    Turned s (s.run inputs) (s.history inputs) := by
  induction inputs generalizing s with
  | nil => exact .refl s
  | cons input rest ih =>
    cases input with
    | line text =>
      have first := s.enterWords_turned 0 (words text)
      rw [← enter_eq] at first
      exact first.trans (ih (s.enter text).session)
    | interrupt => exact ih s.interrupt

theorem cause_of_message {taken : Nat} {words : List String} {text : String}
    (shown : (s.enterWords taken words).event = .message text) :
    ∃ key rest refusal, key :: rest ⊆ words ∧ Command.Cause key rest refusal ∧
      text = "Error: " ++ refusal.message := by
  have stopped : (s.enterWords taken words).event ≠ .redraw := by
    rw [shown]
    exact nofun
  obtain ⟨front, key, rest, rfl, -, -, ended, whole, -⟩ := split_of_ended stopped
  rw [whole] at shown
  obtain ⟨refusal, refused, rfl⟩ := attempt_of_message shown
  exact ⟨key, rest, refusal, List.subset_append_right .., attempt_refuses _ key rest refusal refused,
    rfl⟩

theorem refusal_of_message {line text : String} (shown : (s.enter line).event = .message text) :
    ∃ refusal : Refusal, (∀ e, refusal ≠ .failed e) ∧ text = "Error: " ++ refusal.message := by
  rw [enter_eq] at shown
  obtain ⟨key, rest, refusal, -, cause, same⟩ := cause_of_message shown
  exact ⟨refusal, cause.ne_failed, same⟩

namespace WellFormed

theorem slider_index_lt (wellFormed : WellFormed settings s) :
    ∀ slider ∈ s.panel.sliders, slider.var.index < s.vars.size := fun _ member =>
  Vars.index_lt_of_lookup? (wellFormed.lookup?_handle _ (wellFormed.handle_of_mem member))

theorem curve_code (wellFormed : WellFormed settings s) :
    ∀ c ∈ s.curves, ∀ e, c.error = some e → e.code ≠ .internal := by
  intro c member e shown
  obtain ⟨columns, scanned, rfl⟩ := List.mem_map.mp member
  obtain ⟨equation, inSlot, rfl⟩ := List.mem_map.mp scanned
  have proper : ∀ i ∈ equation.instructions, i.isNoop = false :=
    fun i inside => (wellFormed.bound equation (Vector.mem_toList_iff.mp inSlot) i inside).proper
  obtain ⟨column, listed, stopped⟩ := List.exists_of_findSome?_eq_some shown
  obtain ⟨index, rfl⟩ := Sampler.mem_scanFrom _ listed
  exact execute_code proper (Column.error?_ofResult.mp stopped).1

end WellFormed

theorem run_well_formed (settings : Settings) (inputs : List Input) :
    let s := (new settings).run inputs
    let commands := (new settings).history inputs
    s.slots.equations.toList.length = 4 ∧
    s.slots.equations.map (·.color) = settings.colors ∧
    (s.slots.active.val : Int) =
      ((commands.countP Command.isDown : Int) - commands.countP Command.isUp) % 4 ∧
    s.vars.names = ["x", "a", "b", "c", "d"] ∧
    (∀ e ∈ s.slots.equations, ∀ i ∈ e.instructions, i ≠ .noop ∧
      (∀ var, i = .push var → s.vars.lookup? var.name = some var ∧ var.index < s.vars.size) ∧
      ∀ f, i = .apply f → Function.lookup? f.name = some f) ∧
    (∀ slider ∈ s.panel.sliders, slider.var.index < s.vars.size) ∧
    (∀ key i, Command.instruction? s.vars key = some i → ∃ e, s.slots.current.push i = .ok e) ∧
    (∀ c, ∃ e, (s.keypad.key c).1.apply s.slots.current = .ok e) ∧
    (∀ digits, ∃ typed, Keypad.empty.type s.slots.current digits = .ok typed) ∧
    (∀ line text, (s.enter line).event = .message text →
      ∃ refusal : Refusal, (∀ e, refusal ≠ .failed e) ∧ text = "Error: " ++ refusal.message) ∧
    ∀ c ∈ s.curves, ∀ e, c.error = some e → e.code ≠ .internal := by
  intro s commands
  have wellFormed : WellFormed settings s := (Reachable.new.run inputs).wellFormed
  refine ⟨Vector.length_toList, wellFormed.colors, ?_, wellFormed.names, ?_,
    wellFormed.slider_index_lt, ?_, ?_, ?_, fun _ _ => refusal_of_message, wellFormed.curve_code⟩
  · have turned := (new settings).run_turned inputs
    have start : (new settings).slots.active.val = 0 := rfl
    rw [Turned, start, Int.ofNat_zero, Int.zero_add] at turned
    exact turned
  · intro e member i inside
    cases wellFormed.bound e member i inside with
    | push found =>
      refine ⟨nofun, ?_, nofun⟩
      rintro var ⟨⟩
      exact ⟨found, Vars.index_lt_of_lookup? found⟩
    | apply found =>
      refine ⟨nofun, nofun, ?_⟩
      rintro f ⟨⟩
      exact found
    | literal | binary | neg | dup => exact ⟨nofun, nofun, nofun⟩
  · intro key i found
    obtain ⟨e, pushed, -⟩ := push_of_proper s.slots.current (Command.isNoop_of_instruction? found)
    exact ⟨e, pushed⟩
  · intro c
    obtain ⟨e, applied, -⟩ := (s.keypad.key_keyed c).apply s.slots.current
    exact ⟨e, applied⟩
  · intro digits
    obtain ⟨k, e, typed, -⟩ := Keypad.empty.type_typed s.slots.current digits
    exact ⟨(k, e), typed⟩

end Session

end PolishPlotter
