import PolishPlotter.Proofs.Controls.Range
import PolishPlotter.Proofs.Machine.Registry
import PolishPlotter.Proofs.Session.History

set_option autoImplicit false

namespace PolishPlotter

open Controls Machine

namespace Machine.Vars

-- To store what is there already changes nothing.
theorem store_fetch (vars : Vars) (var : Var) : vars.store var (vars.fetch var) = vars := by
  obtain ⟨names, values, aligned⟩ := vars
  simp only [store, fetch, Vars.mk.injEq, true_and]
  cases held : values[var.index]? with
  | none => exact List.set_eq_of_length_le (List.getElem?_eq_none_iff.mp held)
  | some value =>
    obtain ⟨inside, rfl⟩ := List.getElem?_eq_some_iff.mp held
    exact List.set_getElem_self inside

end Machine.Vars

namespace Controls.Panel

variable {panel : Panel} {changed slider t : Slider} {name : String}

theorem name_of_find? (found : panel.find? name = some slider) : slider.var.name = name := by
  simpa using List.find?_some found

theorem mem_replace (member : t ∈ (panel.replace changed).sliders) :
    t = changed ∨ t ∈ panel.sliders ∧ t.var.name ≠ changed.var.name := by
  obtain ⟨u, inside, rfl⟩ := List.mem_map.mp member
  split
  · exact .inl rfl
  · next other => exact .inr ⟨inside, other⟩

theorem find?_replace_of_ne (other : name ≠ changed.var.name) :
    (panel.replace changed).find? name = panel.find? name := by
  obtain ⟨sliders⟩ := panel
  simp only [replace, find?]
  induction sliders with
  | nil => rfl
  | cons t rest ih =>
    by_cases same : t.var.name = changed.var.name
    · simp [same, other.symm, ih]
    · simp [List.find?_cons, same, ih]

end Controls.Panel

namespace Command

-- No NaN is given to a slider.
def Definite : Command → Prop
  | .set _ value => value.isNaN = false
  | .range _ min max => min.isNaN = false ∧ max.isNaN = false
  | _ => True

instance : DecidablePred Definite
  | .set _ value => inferInstanceAs (Decidable (value.isNaN = false))
  | .range _ min max => inferInstanceAs (Decidable (min.isNaN = false ∧ max.isNaN = false))
  | .add _ | .number _ _ | .backspace | .negate | .clear | .up | .down | .zoomIn | .zoomOut
  | .pan _ _ | .stick _ _ | .resetView | .minimum _ | .maximum _ | .reset _ | .move _ _ | .trace
  | .traceAt _ | .snap | .quit => .isTrue trivial

def moved (slider : Slider) (v : Float) : Command → Slider × Float
  | .set _ value => (slider, slider.clamp value)
  | .range _ min max => (slider.setRange min max, (slider.setRange min max).clamp v)
  | .minimum _ => (slider.setRange v slider.max, v)
  | .maximum _ => (slider.setRange slider.min v, v)
  | .reset _ => (slider.setRange 0 1, Slider.initial)
  | _ => (slider, v)

variable {command : Command} {slider : Slider} {v : Float}

theorem var_moved (slider : Slider) (v : Float) (command : Command) :
    (command.moved slider v).1.var = slider.var := by
  cases command <;> first | rfl | exact Session.var_setRange ..

theorem holds_moved (holds : slider.Holds v) (definite : command.Definite) :
    (command.moved slider v).1.Holds (command.moved slider v).2 := by
  cases command with
  | set => exact Slider.holds_clamp holds.ordered definite
  | range =>
    exact Slider.holds_clamp (slider.setRange_ordered definite.1 definite.2) holds.number
  | minimum => exact holds.setRange_low
  | maximum => exact holds.setRange_high
  | reset => exact slider.holds_initial
  | _ => exact holds

end Command

namespace Session

def reading (s : Session) (name : String) : Option (Float × Float × Float) :=
  (s.panel.find? name).map fun slider => (slider.value s.vars, slider.min, slider.max)

def InRange (s : Session) : Prop := ∀ t ∈ s.panel.sliders, t.Holds (t.value s.vars)

variable {settings : Settings} {s : Session} {command : Command} {reply : Reply}
  {slider changed t : Slider} {name other : String} {taken : Nat} {typed : List String}

namespace WellFormed

variable (wellFormed : WellFormed settings s)

include wellFormed

theorem eq_of_name (one : slider ∈ s.panel.sliders) (two : t ∈ s.panel.sliders)
    (same : t.var.name = slider.var.name) : t = slider := by
  have distinct : (s.panel.sliders.map (·.var.name)).Nodup := by
    have names : s.panel.sliders.map (·.var.name) = Panel.handles.map (·.name) := by
      rw [← wellFormed.sliders, List.map_map]
      rfl
    rw [names]
    decide
  exact List.inj_on_of_nodup_map distinct two one same

theorem replace_self (found : s.panel.find? name = some slider) :
    s.panel.replace slider = s.panel := by
  have kept : ∀ t ∈ s.panel.sliders, (if t.var.name = slider.var.name then slider else t) = t := by
    intro t member
    split
    · next same => exact (wellFormed.eq_of_name (List.mem_of_find?_eq_some found) member same).symm
    · rfl
  exact congrArg Panel.mk ((List.map_congr_left kept).trans (List.map_id _))

theorem value_store_self (member : slider ∈ s.panel.sliders) (v : Float) :
    slider.value (s.vars.store slider.var v) = v := by
  have found := wellFormed.lookup?_handle _ (wellFormed.handle_of_mem member)
  exact Vars.fetch_store_self (Vars.index_lt_of_lookup? found) v

theorem value_store_of_ne (one : slider ∈ s.panel.sliders) (two : t ∈ s.panel.sliders)
    (apart : t.var.name ≠ slider.var.name) (v : Float) :
    t.value (s.vars.store slider.var v) = t.value s.vars := by
  have own := wellFormed.lookup?_handle _ (wellFormed.handle_of_mem one)
  have others := wellFormed.lookup?_handle _ (wellFormed.handle_of_mem two)
  exact Vars.fetch_store_of_ne (Vars.index_ne_of_name_ne own others apart) v

theorem inRange_moved (inRange : s.InRange) (found : s.panel.find? name = some slider)
    (same : changed.var = slider.var) {v : Float} (holds : changed.Holds v) :
    InRange { s with panel := s.panel.replace changed, vars := s.vars.store slider.var v } := by
  have member := List.mem_of_find?_eq_some found
  intro t inside
  rcases Panel.mem_replace inside with rfl | ⟨kept, apart⟩
  · have own : t.value (s.vars.store slider.var v) = slider.value (s.vars.store slider.var v) := by
      rw [Slider.value, Slider.value, same]
    rw [own, wellFormed.value_store_self member]
    exact holds
  · rw [same] at apart
    rw [wellFormed.value_store_of_ne member kept apart]
    exact inRange t kept

end WellFormed

theorem apply_moved (wellFormed : WellFormed settings s) (named : command.slider? = some name)
    (found : s.panel.find? name = some slider) :
    s.apply command = .ok { s with
      panel := s.panel.replace (command.moved slider (slider.value s.vars)).1
      vars := s.vars.store slider.var (command.moved slider (slider.value s.vars)).2 }.redraw := by
  have given := slider_eq_ok.mpr found
  have unmoved : s.vars.store slider.var (slider.value s.vars) = s.vars := s.vars.store_fetch _
  cases command with
  | set =>
    cases named
    simp only [apply, given, Command.moved, wellFormed.replace_self found]
    rfl
  | range =>
    cases named
    simp only [apply, given, Command.moved, Slider.set, var_setRange]
    rfl
  | minimum | maximum =>
    cases named
    simp only [apply, given, Command.moved, unmoved]
    rfl
  | reset =>
    cases named
    simp only [apply, given]
    rfl
  | _ => cases named

theorem InRange.apply (inRange : s.InRange) (wellFormed : WellFormed settings s)
    (proper : command.isProper = true) (definite : command.Definite)
    (done : s.apply command = .ok reply) : reply.session.InRange := by
  have applied := s.apply_applied proper
  rw [done] at applied
  cases applied with
  | edited | viewed | ended => exact inRange
  | @slid name slider _ _ named found =>
    have holds := inRange slider (List.mem_of_find?_eq_some found)
    cases done.symm.trans (apply_moved wellFormed named found)
    exact wellFormed.inRange_moved inRange found (command.var_moved slider _)
      (Command.holds_moved holds definite)

theorem reading_apply (wellFormed : WellFormed settings s) (proper : command.isProper = true)
    (apart : command.slider? ≠ some other) (done : s.apply command = .ok reply) :
    reply.session.reading other = s.reading other := by
  have applied := s.apply_applied proper
  rw [done] at applied
  cases applied with
  | edited | viewed | ended => rfl
  | @slid name slider _ _ named found =>
    have own := Panel.name_of_find? found
    have different : other ≠ slider.var.name := by
      rintro rfl
      exact apart (by rw [named, own])
    cases done.symm.trans (apply_moved wellFormed named found)
    have same : (s.panel.replace (command.moved slider (slider.value s.vars)).1).find? other =
        s.panel.find? other := Panel.find?_replace_of_ne (by rwa [Command.var_moved])
    simp only [reading, redraw, same]
    refine Option.map_congr fun t seen => ?_
    have labelled := Panel.name_of_find? seen
    rw [wellFormed.value_store_of_ne (List.mem_of_find?_eq_some found)
      (List.mem_of_find?_eq_some seen) (by rwa [labelled])]

theorem enterWords_inRange (inRange : s.InRange) (wellFormed : WellFormed settings s)
    (definite : ∀ command ∈ s.executed taken typed, command.Definite) :
    (s.enterWords taken typed).session.InRange := by
  refine (enterWords_keeps (P := fun t => WellFormed settings t ∧ t.InRange) ?_
    ⟨wellFormed, inRange⟩ definite).2
  rintro t key rest command reply ⟨wellFormed, inRange⟩ definite reads done
  exact ⟨wellFormed.next reads done,
    inRange.apply wellFormed (Command.isProper_of_read reads) definite done⟩

theorem enterWords_reading (wellFormed : WellFormed settings s)
    (apart : ∀ command ∈ s.executed taken typed, command.slider? ≠ some other) :
    (s.enterWords taken typed).session.reading other = s.reading other := by
  refine (enterWords_keeps
    (P := fun t => WellFormed settings t ∧ t.reading other = s.reading other) ?_
    ⟨wellFormed, rfl⟩ apart).2
  rintro t key rest command reply ⟨wellFormed, same⟩ apart reads done
  exact ⟨wellFormed.next reads done,
    (reading_apply wellFormed (Command.isProper_of_read reads) apart done).trans same⟩

theorem inRange_new (settings : Settings) : (new settings).InRange := by
  have holds : ∀ t ∈ (Panel.create .new).1.sliders, t.Holds (t.value (Panel.create .new).2) := by
    decide +kernel
  exact holds

theorem run_inRange (inRange : s.InRange) (reachable : Reachable settings s) (inputs : List Input)
    (definite : ∀ command ∈ s.history inputs, command.Definite) : (s.run inputs).InRange := by
  induction inputs generalizing s with
  | nil => exact inRange
  | cons input rest ih =>
    cases input with
    | interrupt => exact ih inRange (.interrupt reachable) definite
    | line text =>
      obtain ⟨first, later⟩ := List.forall_mem_append.mp definite
      have next := enterWords_inRange inRange reachable.wellFormed first
      rw [← enter_eq] at next
      exact ih next (.enter text reachable) later

theorem history_append (s : Session) (front back : List Input) :
    s.history (front ++ back) = s.history front ++ (s.run front).history back := by
  induction front generalizing s with
  | nil => rfl
  | cons input rest ih =>
    cases input with
    | interrupt => exact ih s.interrupt
    | line text =>
      rw [List.cons_append, history, history, ih, List.append_assoc]
      rfl

theorem isProper_of_slider (named : command.slider? = some name) : command.isProper = true := by
  cases command with
  | add => cases named
  | _ => rfl

theorem sliders_stay_in_range (settings : Settings) :
    (∀ inputs, (∀ command ∈ (new settings).history inputs, command.Definite) →
      ∀ front, front <+: inputs →
        let s := (new settings).run front
        s.panel.sliders.map (·.var.name) = ["a", "b", "c", "d"] ∧
        ∀ slider ∈ s.panel.sliders,
          slider.min ≤ slider.value s.vars ∧ slider.value s.vars ≤ slider.max) ∧
    ∀ s, Reachable settings s → ∀ other,
      (∀ command name reply, command.slider? = some name → name ≠ other →
        s.apply command = .ok reply → reply.session.reading other = s.reading other) ∧
      ∀ line, (∀ command ∈ s.executed 0 (words line), command.slider? ≠ some other) →
        (s.enter line).session.reading other = s.reading other := by
  constructor
  · rintro inputs definite front ⟨back, rfl⟩ s
    rw [history_append] at definite
    have reachable : Reachable settings s := Reachable.new.run front
    have inRange : s.InRange :=
      run_inRange (inRange_new settings) .new front (List.forall_mem_append.mp definite).1
    constructor
    · have handles := congrArg (List.map (·.name)) reachable.wellFormed.sliders
      rw [List.map_map] at handles
      exact handles
    · intro slider member
      exact ⟨(inRange slider member).low, (inRange slider member).high⟩
  · intro s reachable other
    constructor
    · intro command name reply named apart
      refine reading_apply reachable.wellFormed (isProper_of_slider named) ?_
      rw [named]
      exact fun same => apart (Option.some.inj same)
    · intro line apart
      rw [enter_eq]
      exact enterWords_reading reachable.wellFormed apart

-- Reversed and infinite bounds, bounds taken from the value, and a line that fails after one command.
def slid : List Input :=
  [.line "range a 5 -3 set a 9 min a", .line "range b inf -inf set b -1e999 max b set e 1",
    .line "set c 0.25 max c range c 1 2"]

theorem slid_in_range :
    (∀ slider ∈ ((new .default).run slid).panel.sliders,
      slider.min ≤ slider.value ((new .default).run slid).vars ∧
        slider.value ((new .default).run slid).vars ≤ slider.max) ∧
      ((new .default).enter "range a 5 -3 min a set b nan").session.reading "c" =
        (new .default).reading "c" := by
  obtain ⟨stays, alone⟩ := sliders_stay_in_range .default
  obtain ⟨-, line⟩ := alone (new .default) .new "c"
  refine ⟨(stays slid ?_ slid (List.prefix_refl slid)).2, line _ ?_⟩
  · decide +kernel
  · decide +kernel

end Session

end PolishPlotter
