import PolishPlotter.Proofs.Session.Coherence
import PolishPlotter.Proofs.Session.Groups
import PolishPlotter.Proofs.Session.Vocabulary

set_option autoImplicit false

namespace PolishPlotter

open Controls Machine Screen

namespace Controls.Slots

variable (slots : Slots) (e f : Equation)

def KeepsOthers (s t : Slots) : Prop :=
  t.active = s.active ∧ ∀ i : Nat, i ≠ s.active → t.get? i = s.get? i

theorem keepsOthers_setCurrent : KeepsOthers slots (slots.setCurrent e) := by
  refine ⟨rfl, fun i apart => ?_⟩
  simp [setCurrent, get?, Vector.getElem?_set_ne _ apart.symm]

theorem next_ne (i : Fin slotCount) : (i : Nat) ≠ (i + 1 : Fin slotCount) := by
  revert i
  decide

theorem current_next_setCurrent : (slots.setCurrent e).next.current = slots.next.current := by
  simp [setCurrent, next, current, Vector.getElem_set_ne, next_ne]

theorem current_prev_setCurrent : (slots.next.setCurrent e).prev.current = slots.current := by
  have back : slots.active + 1 - 1 = slots.active := congrArg active slots.prev_next
  simp [setCurrent, next, prev, current, back, Vector.getElem_set_ne, (next_ne _).symm]

theorem setCurrent_comm :
    ((slots.setCurrent e).next.setCurrent f).prev = (slots.next.setCurrent f).prev.setCurrent e := by
  have back : slots.active + 1 - 1 = slots.active := congrArg active slots.prev_next
  simp only [setCurrent, next, prev, back]
  rw [Vector.set_comm _ _ (next_ne slots.active)]

end Controls.Slots

theorem Controls.Panel.find?_eq_none_iff {panel : Panel} {name : String} :
    panel.find? name = none ↔ name ∉ panel.sliders.map (·.var.name) := by
  simp [find?]

theorem Command.stays_of_read {vars : Vars} {key : String} {words : List String}
    {command : Command} (up : key ≠ "up") (down : key ≠ "down")
    (reads : read vars key words = .ok command) :
    command.isDown = false ∧ command.isUp = false := by
  cases read_eq_ok reads with
  | add | number => exact ⟨rfl, rfl⟩
  | keyed other rest readOff =>
    obtain ⟨args, later, -, spelled, -⟩ := readOff
    cases spelled with
    | up => exact absurd rfl up
    | down => exact absurd rfl down
    | _ => exact ⟨rfl, rfl⟩

namespace Session

/-- Sessions with one keypad and one equation in their active slots, which need not be the same slot. -/
structure Abreast (s t : Session) : Prop where
  keypad : t.keypad = s.keypad
  current : t.slots.current = s.slots.current
  fixed : Fixed s t

/-- From `s` to `t` the equation was written in the active slot, and the keypad came out as given. -/
structure Wrote (s : Session) (keypad : Keypad) (e : Equation) (t : Session) : Prop where
  keypad : t.keypad = keypad
  slots : t.slots = s.slots.setCurrent e
  fixed : Fixed s t

structure Matched (s t : Session) (reply other : Reply) : Prop where
  redraw : other.event = .redraw ↔ reply.event = .redraw
  wrote : ∃ keypad e, Wrote s keypad e reply.session ∧ Wrote t keypad e other.session

variable {settings : Settings} {s t u v : Session} {command : Command} {reply other : Reply}
  {key line : String} {rest typed : List String} {taken : Nat}

theorem Abreast.refl (s : Session) : Abreast s s := ⟨rfl, rfl, .refl s⟩

theorem Wrote.refl (s : Session) : Wrote s s.keypad s.slots.current s :=
  ⟨rfl, s.slots.setCurrent_current.symm, .refl s⟩

theorem Wrote.trans {k l : Keypad} {e f : Equation} (first : Wrote s k e t)
    (second : Wrote t l f u) : Wrote s l f u := by
  refine ⟨second.keypad, ?_, first.fixed.trans second.fixed⟩
  rw [second.slots, first.slots, Slots.setCurrent_setCurrent]

theorem Wrote.abreast {keypad : Keypad} {e : Equation} (abreast : Abreast s t)
    (first : Wrote s keypad e u) (second : Wrote t keypad e v) : Abreast u v where
  keypad := second.keypad.trans first.keypad.symm
  current := by rw [first.slots, second.slots, Slots.current_setCurrent, Slots.current_setCurrent]
  fixed := (first.fixed.symm.trans abreast.fixed).trans second.fixed

theorem Matched.refl (abreast : Abreast s t) : Matched s t s.redraw t.redraw := by
  have second := Wrote.refl t
  rw [abreast.keypad, abreast.current] at second
  exact ⟨Iff.rfl, s.keypad, s.slots.current, .refl s, second⟩

-- Whether any other command is carried out depends on the sliders, and these have the same names.
theorem apply_alike (rest : command.edits = false) (fixed : Fixed s t) :
    (∃ refusal, s.apply command = .error refusal ∧ t.apply command = .error refusal) ∨
    ∃ reply other, s.apply command = .ok reply ∧ t.apply command = .ok other ∧
      (other.event = .redraw ↔ reply.event = .redraw) := by
  by_cases ends : command.ends = true
  · obtain ⟨c, event, done, ended⟩ := s.apply_ended ends
    obtain ⟨d, otherEvent, otherDone, otherEnded⟩ := t.apply_ended ends
    exact .inr ⟨_, _, done, otherDone, by simp [ended, otherEnded]⟩
  rw [Bool.not_eq_true] at ends
  cases named : command.slider? with
  | none =>
    obtain ⟨view, notices, done⟩ := s.apply_viewed rest named ends
    obtain ⟨otherView, otherNotices, otherDone⟩ := t.apply_viewed rest named ends
    exact .inr ⟨_, _, done, otherDone, Iff.rfl⟩
  | some name =>
    have same : t.panel.find? name = none ↔ s.panel.find? name = none := by
      rw [Panel.find?_eq_none_iff, Panel.find?_eq_none_iff, fixed.sliders]
    cases found : s.panel.find? name with
    | none =>
      exact .inl ⟨_, apply_missing named found, apply_missing named (same.mpr found)⟩
    | some slider =>
      obtain ⟨other, otherFound⟩ : ∃ other, t.panel.find? name = some other := by
        cases missing : t.panel.find? name with
        | none => simp [same.mp missing] at found
        | some other => exact ⟨other, rfl⟩
      obtain ⟨panel, vars, done, -⟩ := apply_slid named found
      obtain ⟨otherPanel, otherVars, otherDone, -⟩ := apply_slid named otherFound
      exact .inr ⟨_, _, done, otherDone, Iff.rfl⟩

theorem attempt_matched (abreast : Abreast s t) (up : key ≠ "up") (down : key ≠ "down")
    (rest : List String) :
    (∃ refusal, s.attempt key rest = .error refusal ∧ t.attempt key rest = .error refusal) ∨
    ∃ command reply other, s.attempt key rest = .ok (command, reply) ∧
      t.attempt key rest = .ok (command, other) ∧ Matched s t reply other := by
  have same := Command.read_congr abreast.fixed.vars key rest
  refine attempt_alike same fun command reads => ?_
  have fixed {reply : Reply} (done : s.apply command = .ok reply) : Fixed s reply.session :=
    .apply reads done
  have otherFixed {other : Reply} (done : t.apply command = .ok other) : Fixed t other.session :=
    .apply (same.trans reads) done
  cases edits : command.edits with
  | true =>
    obtain ⟨keypad, e, -, applies⟩ := s.apply_written edits (Command.isProper_of_read reads)
      (Command.stays_of_read up down reads)
    obtain ⟨notices, done⟩ := applies s rfl rfl
    obtain ⟨otherNotices, otherDone⟩ := applies t abreast.keypad abreast.current
    exact .inr ⟨_, _, done, otherDone, Iff.rfl, keypad, e,
      ⟨rfl, rfl, fixed done⟩, ⟨rfl, rfl, otherFixed otherDone⟩⟩
  | false =>
    rcases apply_alike edits abreast.fixed with refused | ⟨reply, other, done, otherDone, redraw⟩
    · exact .inl refused
    · obtain ⟨keypad, slots⟩ := apply_keeps_slots edits done
      obtain ⟨otherKeypad, otherSlots⟩ := apply_keeps_slots edits otherDone
      refine .inr ⟨reply, other, done, otherDone, redraw, s.keypad, s.slots.current,
        ⟨keypad, ?_, fixed done⟩, ⟨otherKeypad.trans abreast.keypad, ?_, otherFixed otherDone⟩⟩
      · rw [slots, Slots.setCurrent_current]
      · rw [otherSlots, ← abreast.current, Slots.setCurrent_current]

theorem answer_matched (abreast : Abreast s t) (up : key ≠ "up") (down : key ≠ "down")
    (rest : List String) : Matched s t (s.answer key rest) (t.answer key rest) := by
  refine answer_alike (attempt_matched abreast up down rest) fun refusal => ?_
  exact ⟨by simp [refuse], (Matched.refl abreast).wrote⟩

theorem enterWords_matched (abreast : Abreast s t) (up : "up" ∉ typed) (down : "down" ∉ typed) :
    Matched s t (s.enterWords taken typed) (t.enterWords taken typed) := by
  induction s, taken, typed using line_induction generalizing t with
  | nil s taken =>
    rw [enterWords_nil, enterWords_nil]
    exact .refl abreast
  | skip s taken word rest ih =>
    exact ih abreast (List.not_mem_of_not_mem_cons up) (List.not_mem_of_not_mem_cons down)
  | last s key rest ended =>
    have matched := answer_matched abreast (List.ne_of_not_mem_cons up).symm
      (List.ne_of_not_mem_cons down).symm rest
    rw [enterWords_last ended, enterWords_last (mt matched.redraw.mp ended)]
    exact matched
  | next s key rest command u notices attempted ih =>
    rcases attempt_matched abreast (List.ne_of_not_mem_cons up).symm
        (List.ne_of_not_mem_cons down).symm rest with
      ⟨_, refused, -⟩ | ⟨_, _, ⟨v, event, others⟩, done, otherDone, matched⟩
    · cases attempted.symm.trans refused
    · cases attempted.symm.trans done
      obtain rfl : event = .redraw := matched.redraw.mpr rfl
      obtain ⟨keypad, e, first, second⟩ := matched.wrote
      have later := ih (first.abreast abreast second) (List.not_mem_of_not_mem_cons up)
        (List.not_mem_of_not_mem_cons down)
      obtain ⟨l, f, wrote, otherWrote⟩ := later.wrote
      rw [enterWords_next attempted, enterWords_next otherDone]
      exact ⟨later.redraw, l, f, first.trans wrote, second.trans otherWrote⟩

theorem enter_matched (abreast : Abreast s t) (up : "up" ∉ words line)
    (down : "down" ∉ words line) :
    ∃ keypad e, Wrote s keypad e (s.enter line).session ∧
      Wrote t keypad e (t.enter line).session := by
  rw [enter_eq, enter_eq]
  exact (enterWords_matched abreast up down).wrote

def enterNext (s : Session) (line : String) : Session :=
  (((s.enter "down").session.enter line).session.enter "up").session

section Next

variable (names : s.vars.names = Command.variableNames)

include names

theorem enter_down :
    (s.enter "down").session = { s with keypad := .empty, slots := s.slots.next } := by
  have alone : words "down" = ["down"] := by decide
  rw [enter_eq, alone, enterWords_keyed names (by decide) rfl rfl]
  rfl

theorem enter_up :
    (s.enter "up").session = { s with keypad := .empty, slots := s.slots.prev } := by
  have alone : words "up" = ["up"] := by decide
  rw [enter_eq, alone, enterWords_keyed names (by decide) rfl rfl]
  rfl

theorem enterNext_eq (line : String) :
    s.enterNext line =
      let t := ({ s with keypad := .empty, slots := s.slots.next }.enter line).session
      { t with keypad := .empty, slots := t.slots.prev } := by
  rw [enterNext, enter_down names]
  exact enter_up ((enter_fixed _ line).vars.trans names)

theorem enterNext_fixed (line : String) : Fixed s (s.enterNext line) := by
  have typed := enter_fixed { s with keypad := .empty, slots := s.slots.next } line
  rw [enterNext_eq names]
  exact ⟨typed.settings, typed.vars, typed.sliders⟩

theorem enterNext_matched (fixed : Fixed s t) (current : t.slots.next.current = s.slots.next.current)
    (up : "up" ∉ words line) (down : "down" ∉ words line) :
    ∃ e, (s.enterNext line).slots = (s.slots.next.setCurrent e).prev ∧
      (t.enterNext line).slots = (t.slots.next.setCurrent e).prev := by
  have abreast : Abreast { s with keypad := .empty, slots := s.slots.next }
      { t with keypad := .empty, slots := t.slots.next } :=
    ⟨rfl, current, fixed.settings, fixed.vars, fixed.sliders⟩
  obtain ⟨keypad, e, first, second⟩ := enter_matched abreast up down
  rw [enterNext_eq names, enterNext_eq (fixed.vars.trans names)]
  exact ⟨e, congrArg Slots.prev first.slots, congrArg Slots.prev second.slots⟩

end Next

theorem neighbours_edited_apart (reachable : Reachable settings s)
    (idle : s.keypad.inProgress = false) (front back : String)
    (frontStays : "up" ∉ words front ∧ "down" ∉ words front)
    (backStays : "up" ∉ words back ∧ "down" ∉ words back) :
    ((s.enter front).session.enterNext back).slots =
        ((s.enterNext back).enter front).session.slots ∧
      ((s.enter front).session.enterNext back).slots.active = s.slots.active ∧
      s.slots.KeepsOthers (s.enter front).session.slots ∧
      (s.enterNext back).slots.KeepsOthers ((s.enterNext back).enter front).session.slots := by
  have names := reachable.wellFormed.names
  obtain ⟨f, aside, -⟩ := enterNext_matched names (.refl s) rfl backStays.1 backStays.2
  have abreast : Abreast s (s.enterNext back) := by
    refine ⟨?_, ?_, enterNext_fixed names back⟩
    · have coherent : Controls.Coherent s.keypad s.slots.current.instructions := reachable.coherent
      rw [coherent.empty_of_idle idle, enterNext_eq names]
    · rw [aside, Slots.current_prev_setCurrent]
  obtain ⟨keypad, e, first, last⟩ := enter_matched abreast frontStays.1 frontStays.2
  have beside : (s.enter front).session.slots.next.current = s.slots.next.current := by
    rw [first.slots, Slots.current_next_setCurrent]
  obtain ⟨g, direct, after⟩ :=
    enterNext_matched names first.fixed beside backStays.1 backStays.2
  have same : ((s.enter front).session.enterNext back).slots =
      ((s.enterNext back).enter front).session.slots := by
    calc ((s.enter front).session.enterNext back).slots
        = ((s.slots.setCurrent e).next.setCurrent g).prev := by rw [after, first.slots]
      _ = (s.slots.next.setCurrent g).prev.setCurrent e := s.slots.setCurrent_comm e g
      _ = (s.enterNext back).slots.setCurrent e := by rw [direct]
      _ = ((s.enterNext back).enter front).session.slots := last.slots.symm
  refine ⟨same, ?_, ?_, ?_⟩
  · have back : s.slots.active + 1 - 1 = s.slots.active := congrArg Slots.active s.slots.prev_next
    rw [same, last.slots, direct]
    exact back
  · rw [first.slots]
    exact s.slots.keepsOthers_setCurrent e
  · rw [last.slots]
    exact (s.enterNext back).slots.keepsOthers_setCurrent e

-- The last slot is active, so the next one is the first.
def turned : Session := ((new .default).enter "down down down").session

-- The first line ends at a slider that is missing, the second one before its last number.
theorem turned_edited_apart :
    Reachable .default turned ∧ turned.slots.active = 3 ∧ turned.keypad.inProgress = false ∧
      ((turned.enter "2 x * bs set q 1 +").session.enterNext "clear 3 quit 7").slots =
        ((turned.enterNext "clear 3 quit 7").enter "2 x * bs set q 1 +").session.slots ∧
      (turned.enter "2 x * bs set q 1 +").event = .message "Error: no slider named 'q'" ∧
      ((turned.enter "2 x * bs set q 1 +").session.enterNext "clear 3 quit 7").slots.equations.map
        (Machine.transcript ·.instructions) = #v["3", "", "", "2 x"] := by
  have reachable : Reachable .default turned := .enter _ .new
  have last : turned.slots.active = 3 ∧ turned.keypad.inProgress = false := by
    rw [turned, enter_eq]
    decide +kernel
  obtain ⟨same, -⟩ := neighbours_edited_apart reachable last.2 "2 x * bs set q 1 +"
    "clear 3 quit 7" ⟨by decide, by decide⟩ ⟨by decide, by decide⟩
  have missing : (turned.enter "2 x * bs set q 1 +").event =
      .message "Error: no slider named 'q'" := by
    rw [turned, enter_eq, enter_eq]
    rfl
  have shown : ((turned.enter "2 x * bs set q 1 +").session.enterNext "clear 3 quit 7").slots.equations.map
      (Machine.transcript ·.instructions) = #v["3", "", "", "2 x"] := by
    simp only [turned, enterNext, enter_eq]
    decide +kernel
  exact ⟨reachable, last.1, last.2, same, missing, shown⟩

end Session

end PolishPlotter
