import PolishPlotter.Proofs.Controls.Keys
import PolishPlotter.Proofs.Screen.Motion
import PolishPlotter.Proofs.Session.Coherence
import PolishPlotter.Proofs.Session.Spelling

set_option autoImplicit false

namespace PolishPlotter

open Controls Machine Screen

namespace Command

-- The slider that a command sets.
def slider? : Command → Option String
  | .set name _ | .range name _ _ | .minimum name | .maximum name | .reset name => some name
  | _ => none

-- How a command moves the view.
def motion? (settings : Settings) : Command → Option (Move Float)
  | .zoomIn => some (.zoomIn settings.zoomFactor)
  | .zoomOut => some (.zoomOut settings.zoomFactor)
  | .pan dx dy => some (.pan dx dy)
  | .stick dx dy => some (.stick dx dy settings.panRate)
  | _ => none

-- The commands that end a line.
def ends : Command → Bool
  | .move _ _ | .trace | .traceAt _ | .snap | .quit => true
  | _ => false

def isDown : Command → Bool
  | .down => true
  | _ => false

def isUp : Command → Bool
  | .up => true
  | _ => false

def isProper : Command → Bool
  | .add i => !i.isNoop
  | _ => true

variable {vars : Vars} {key : String} {words : List String} {command : Command} {i : Instruction}

theorem isProper_of_read (reads : read vars key words = .ok command) :
    command.isProper = true := by
  cases command with
  | add i => simp only [isProper, isNoop_of_instruction? (instruction?_of_read reads), Bool.not_false]
  | _ => rfl

end Command

namespace Session

inductive Edited (s : Session) : Command → Slots → Prop
  | down : Edited s .down s.slots.next
  | up : Edited s .up s.slots.prev
  | written {command : Command} (e : Equation)
    (stays : command.isDown = false ∧ command.isUp = false) (color : e.color = s.slots.current.color)
    (mem : ∀ i ∈ e.instructions, i ∈ s.slots.current.instructions ∨ i = .neg ∨
      (∃ v, i = .literal v) ∨ command = .add i) :
    Edited s command (s.slots.setCurrent e)

variable {s t : Session} {command : Command} {reply : Reply} {refusal : Refusal} {name : String}

theorem Edited.typed {e : Equation} (typed : s.slots.current.Typed e)
    (stays : command.isDown = false ∧ command.isUp = false) :
    Edited s command (s.slots.setCurrent e) := by
  refine .written e stays typed.color ?_
  intro i member
  rcases typed.mem i member with before | negates | literal
  · exact .inl before
  · exact .inr (.inl negates)
  · exact .inr (.inr (.inl literal))

theorem key_typed (s : Session) (c : Char) :
    ∃ k e, s.slots.current.Typed e ∧
      ∀ t : Session, t.keypad = s.keypad → t.slots.current = s.slots.current →
        t.key c = .ok { t with keypad := k, slots := t.slots.setCurrent e } := by
  obtain ⟨e, applied, typed⟩ := (s.keypad.key_keyed c).apply s.slots.current
  refine ⟨(s.keypad.key c).2, e, typed, fun t keypad current => ?_⟩
  simp only [key, keypad, current, applied]

theorem number_typed (s : Session) (negative : Bool) (digits : List Char) :
    ∃ k e, s.slots.current.Typed e ∧ ∀ t : Session, t.slots.current = s.slots.current →
      t.number negative digits = .ok { t with keypad := k, slots := t.slots.setCurrent e } := by
  obtain ⟨k, e, pressed, typed⟩ := Keypad.empty.type_typed s.slots.current digits
  cases negative with
  | false => exact ⟨k, e, typed, fun t current => by simp [number, current, pressed]⟩
  | true =>
    obtain ⟨l, f, last, toggles⟩ :=
      key_typed { s with keypad := k, slots := s.slots.setCurrent e } Keypad.sign
    refine ⟨l, f, typed.trans (by simpa using last), fun t current => ?_⟩
    have toggled := toggles { t with keypad := k, slots := t.slots.setCurrent e } rfl (by simp)
    simpa [number, current, pressed] using toggled

theorem push_of_proper (e : Equation) {i : Instruction} (proper : i.isNoop = false) :
    ∃ f, e.push i = .ok f ∧ f.color = e.color ∧ f.instructions = e.instructions ++ [i] :=
  ⟨{ e with instructions := e.instructions ++ [i] }, by simp [Equation.push, proper], rfl, rfl⟩

theorem apply_written (s : Session) (edits : command.edits = true)
    (proper : command.isProper = true) (stays : command.isDown = false ∧ command.isUp = false) :
    ∃ keypad e, Edited s command (s.slots.setCurrent e) ∧
      ∀ t : Session, t.keypad = s.keypad → t.slots.current = s.slots.current →
        ∃ notices, t.apply command =
          .ok ⟨{ t with keypad, slots := t.slots.setCurrent e }, .redraw, notices⟩ := by
  cases command with
  | add i =>
    have given : i.isNoop = false := by simpa [Command.isProper] using proper
    obtain ⟨e, pushed, color, written⟩ := push_of_proper s.slots.current given
    refine ⟨.empty, e, .written e stays color ?_, fun t _ current => ⟨[t.addNotice i], ?_⟩⟩
    · intro j member
      rw [written] at member
      rcases List.mem_append.mp member with before | last
      · exact .inl before
      · rw [List.mem_singleton.mp last]
        exact .inr (.inr (.inr rfl))
    · simp only [apply, add, endEntry, current, pushed]
      rfl
  | number negative digits =>
    obtain ⟨k, e, typed, types⟩ := s.number_typed negative digits
    refine ⟨k, e, .typed typed stays, fun t _ current => ⟨[], ?_⟩⟩
    simp only [apply, types t current]
    rfl
  | backspace =>
    obtain ⟨k, e, typed, presses⟩ := s.key_typed Keypad.backspace
    refine ⟨k, e, .typed typed stays, fun t keypad current => ⟨[], ?_⟩⟩
    simp only [apply, presses t keypad current]
    rfl
  | negate =>
    obtain ⟨k, e, typed, presses⟩ := s.key_typed Keypad.sign
    refine ⟨k, e, .typed typed stays, fun t keypad current => ⟨[], ?_⟩⟩
    simp only [apply, presses t keypad current]
    rfl
  | clear =>
    refine ⟨.empty, s.slots.current.clear, .written _ stays rfl ?_, fun t _ current => ⟨[], ?_⟩⟩
    · intro i member
      cases member
    · simp only [apply, current]
      rfl
  | up => cases stays.2
  | down => cases stays.1
  | _ => cases edits

theorem apply_edited (s : Session) (edits : command.edits = true)
    (proper : command.isProper = true) :
    ∃ keypad slots notices, s.apply command = .ok ⟨{ s with keypad, slots }, .redraw, notices⟩ ∧
      Edited s command slots := by
  cases command with
  | up => exact ⟨.empty, _, [], rfl, .up⟩
  | down => exact ⟨.empty, _, [], rfl, .down⟩
  | _ =>
    obtain ⟨keypad, e, edited, applies⟩ := s.apply_written edits proper ⟨rfl, rfl⟩
    obtain ⟨notices, done⟩ := applies s rfl rfl
    exact ⟨keypad, _, notices, done, edited⟩

structure Slid (s : Session) (slider : Slider) (panel : Panel) (vars : Vars) : Prop where
  panel : panel = s.panel ∨ ∃ changed : Slider, changed.var = slider.var ∧
    panel = s.panel.replace changed
  vars : vars = s.vars ∨ ∃ v, vars = s.vars.store slider.var v

theorem Slid.names {slider : Slider} {panel : Panel} {vars : Vars}
    (slid : Slid s slider panel vars) : vars.names = s.vars.names := by
  rcases slid.vars with rfl | ⟨v, rfl⟩
  · rfl
  · exact Vars.names_store ..

theorem slider_eq_ok {slider : Slider} :
    s.slider name = .ok slider ↔ s.panel.find? name = some slider := by
  unfold Session.slider
  cases s.panel.find? name <;> simp

@[simp] theorem var_setRange (slider : Slider) (min max : Float) :
    (slider.setRange min max).var = slider.var := by
  unfold Slider.setRange
  split <;> rfl

theorem apply_slid {slider : Slider} (named : command.slider? = some name)
    (found : s.panel.find? name = some slider) :
    ∃ panel vars, s.apply command = .ok { s with panel, vars }.redraw ∧
      Slid s slider panel vars := by
  have given := slider_eq_ok.mpr found
  cases command with
  | set name value =>
    cases named
    exact ⟨_, _, by simp only [apply, given]; rfl, .inl rfl, .inr ⟨_, rfl⟩⟩
  | range name min max =>
    cases named
    refine ⟨_, _, by simp only [apply, given]; rfl, .inr ⟨_, var_setRange .., rfl⟩, ?_⟩
    refine .inr ⟨(slider.setRange min max).clamp (slider.value s.vars), ?_⟩
    rw [Slider.set, var_setRange]
  | minimum name =>
    cases named
    exact ⟨_, _, by simp only [apply, given]; rfl, .inr ⟨_, var_setRange .., rfl⟩, .inl rfl⟩
  | maximum name =>
    cases named
    exact ⟨_, _, by simp only [apply, given]; rfl, .inr ⟨_, var_setRange .., rfl⟩, .inl rfl⟩
  | reset name =>
    cases named
    exact ⟨_, _, by simp only [apply, given]; rfl, .inr ⟨_, var_setRange .., rfl⟩, .inr ⟨_, rfl⟩⟩
  | _ => cases named

theorem apply_motion {m : Move Float} (motion : command.motion? s.settings = some m) :
    ∃ notices, s.apply command = .ok ⟨{ s with view := s.view.move m }, .redraw, notices⟩ := by
  cases command with
  | zoomIn | zoomOut | pan | stick =>
    cases motion
    exact ⟨_, rfl⟩
  | _ => cases motion

theorem apply_viewed (s : Session) (rest : command.edits = false) (free : command.slider? = none)
    (goesOn : command.ends = false) :
    ∃ view notices, s.apply command = .ok ⟨{ s with view }, .redraw, notices⟩ := by
  cases command with
  | zoomIn | zoomOut | pan | stick => exact ⟨_, apply_motion rfl⟩
  | resetView => exact ⟨_, [], rfl⟩
  | add | number | backspace | negate | clear | up | down => cases rest
  | set | range | minimum | maximum | reset => cases free
  | move | trace | traceAt | snap | quit => cases goesOn

theorem apply_ended (s : Session) (ends : command.ends = true) :
    ∃ cursor event, s.apply command = .ok ⟨{ s with cursor }, event, []⟩ ∧ event ≠ .redraw := by
  cases command with
  | move | trace | traceAt | snap | quit => exact ⟨_, _, rfl, nofun⟩
  | _ => cases ends

theorem apply_missing (named : command.slider? = some name)
    (missing : s.panel.find? name = none) : s.apply command = .error (.noSlider name) := by
  have refused : s.slider name = .error (.noSlider name) := by
    simp only [Session.slider, missing]
  cases command with
  | set | range | minimum | maximum | reset =>
    cases named
    simp only [apply, refused]
    rfl
  | _ => cases named

inductive Applied (s : Session) (command : Command) : Except Refusal Reply → Prop
  | edited {keypad : Keypad} {slots : Slots} {notices : List Notice}
    (edited : Edited s command slots) :
    Applied s command (.ok ⟨{ s with keypad, slots }, .redraw, notices⟩)
  | viewed {view : Viewport Float} {notices : List Notice} (rest : command.edits = false) :
    Applied s command (.ok ⟨{ s with view }, .redraw, notices⟩)
  | slid {name : String} {slider : Slider} {panel : Panel} {vars : Vars}
    (named : command.slider? = some name) (found : s.panel.find? name = some slider) (slid : Slid s slider panel vars) :
    Applied s command (.ok { s with panel, vars }.redraw)
  | missing {name : String} (named : command.slider? = some name)
    (missing : s.panel.find? name = none) :
    Applied s command (.error (.noSlider name))
  | ended {cursor : Cursor} {event : Event} (ends : command.ends = true) (other : event ≠ .redraw) :
    Applied s command (.ok ⟨{ s with cursor }, event, []⟩)

theorem apply_applied (s : Session) (proper : command.isProper = true) :
    Applied s command (s.apply command) := by
  by_cases edits : command.edits = true
  · obtain ⟨keypad, slots, notices, applied, edited⟩ := s.apply_edited edits proper
    rw [applied]
    exact .edited edited
  by_cases ends : command.ends = true
  · obtain ⟨cursor, event, applied, other⟩ := s.apply_ended ends
    rw [applied]
    exact .ended ends other
  rw [Bool.not_eq_true] at edits ends
  cases named : command.slider? with
  | none =>
    obtain ⟨view, notices, applied⟩ := s.apply_viewed edits named ends
    rw [applied]
    exact .viewed edits
  | some name =>
    cases found : s.panel.find? name with
    | none =>
      rw [apply_missing named found]
      exact .missing named found
    | some slider =>
      obtain ⟨panel, vars, applied, slid⟩ := apply_slid named found
      rw [applied]
      exact .slid named found slid

end Session

end PolishPlotter
