import PolishPlotter.Proofs.Machine.Agreement
import PolishPlotter.Proofs.Session.Effects

set_option autoImplicit false

namespace PolishPlotter

open Controls Machine

inductive Machine.Instruction.Bound (vars : Vars) : Instruction → Prop
  | literal (v : Float) : Bound vars (.literal v)
  | push {var : Var} (found : vars.lookup? var.name = some var) : Bound vars (.push var)
  | binary (op : BinaryOp) : Bound vars (.binary op)
  | neg : Bound vars .neg
  | apply {f : Function} (found : Function.lookup? f.name = some f) : Bound vars (.apply f)
  | dup : Bound vars .dup

namespace Machine.Instruction.Bound

variable {vars other : Vars} {i : Instruction}

theorem of_names (bound : i.Bound vars) (same : other.names = vars.names) : i.Bound other := by
  cases bound with
  | push found =>
    refine .push ?_
    rw [← found, Vars.lookup?, Vars.lookup?, same]
  | literal v => exact .literal v
  | binary op => exact .binary op
  | neg => exact .neg
  | apply found => exact .apply found
  | dup => exact .dup

theorem proper (bound : i.Bound vars) : i.isNoop = false := by
  cases bound <;> rfl

theorem of_read {key : String} {words : List String}
    (reads : Command.read vars key words = .ok (.add i)) : i.Bound vars := by
  rcases Command.instruction?_cases (Command.instruction?_of_read reads) with
    ⟨op, rfl⟩ | rfl | ⟨f, found, rfl⟩ | ⟨var, found, rfl⟩
  · exact .binary op
  · exact .dup
  · have named : f.name = key := by simpa using List.find?_some found
    exact .apply (named ▸ found)
  · have named := (Vars.lookup?_eq_some found).1
    exact .push (named ▸ found)

end Machine.Instruction.Bound

theorem Controls.Slots.mem_setCurrent (slots : Slots) {e f : Equation}
    (member : e ∈ (slots.setCurrent f).equations) : e ∈ slots.equations ∨ e = f := by
  have written : e ∈ slots.equations.set slots.active f slots.active.isLt := member
  exact Vector.mem_or_eq_of_mem_set written

def Controls.Panel.handles : List Var := [⟨1, "a"⟩, ⟨2, "b"⟩, ⟨3, "c"⟩, ⟨4, "d"⟩]

namespace Session

structure WellFormed (settings : Settings) (s : Session) : Prop where
  configured : s.settings = settings
  colors : s.slots.equations.map (·.color) = settings.colors
  names : s.vars.names = ["x", "a", "b", "c", "d"]
  sliders : s.panel.sliders.map (·.var) = Panel.handles
  bound : ∀ e ∈ s.slots.equations, ∀ i ∈ e.instructions, i.Bound s.vars

variable {settings : Settings} {s : Session} {command : Command} {reply : Reply}

theorem Edited.colors {slots : Slots} (edited : Edited s command slots) :
    slots.equations.map (·.color) = s.slots.equations.map (·.color) := by
  cases edited with
  | down | up => rfl
  | written e stays color mem =>
    simp only [Slots.setCurrent, Vector.map_set, color, Slots.current]
    ext i inside
    simp only [Vector.getElem_set, Vector.getElem_map]
    split
    · next same => simp [← same]
    · rfl

theorem Edited.bound {slots : Slots} (edited : Edited s command slots)
    (given : ∀ i, command = .add i → i.Bound s.vars)
    (bound : ∀ e ∈ s.slots.equations, ∀ i ∈ e.instructions, i.Bound s.vars) :
    ∀ e ∈ slots.equations, ∀ i ∈ e.instructions, i.Bound s.vars := by
  cases edited with
  | down | up => exact bound
  | written f stays color mem =>
    intro e member i inside
    rcases Slots.mem_setCurrent s.slots member with before | rfl
    · exact bound e before i inside
    · rcases mem i inside with kept | rfl | ⟨v, rfl⟩ | added
      · exact bound _ (Vector.getElem_mem _) i kept
      · exact .neg
      · exact .literal v
      · exact given i added

theorem replace_handles {panel : Panel} {changed slider : Slider} {name : String}
    (handles : panel.sliders.map (·.var) = Panel.handles)
    (found : panel.find? name = some slider) (same : changed.var = slider.var) :
    (panel.replace changed).sliders.map (·.var) = Panel.handles := by
  have unique : ∀ v ∈ Panel.handles, ∀ w ∈ Panel.handles, v.name = w.name → v = w := by decide
  rw [← handles] at unique ⊢
  simp only [Panel.replace, List.map_map]
  refine List.map_congr_left fun t member => ?_
  simp only [Function.comp]
  split
  · next named =>
    refine unique _ ?_ _ (List.mem_map_of_mem member) named.symm
    rw [same]
    exact List.mem_map_of_mem (List.mem_of_find?_eq_some found)
  · rfl

theorem WellFormed.new (settings : Settings) : WellFormed settings (new settings) where
  configured := rfl
  colors := by
    ext i inside
    simp only [Session.new, Slots.withSine, Slots.new, Vector.getElem_map, Vector.getElem_set]
    split
    · next same => simp [same]
    · rfl
  names := rfl
  sliders := rfl
  bound := by
    intro e member i inside
    rcases Slots.mem_setCurrent (.new settings.colors) member with empty | rfl
    · obtain ⟨color, -, rfl⟩ := Vector.mem_map.mp empty
      cases inside
    · rcases List.mem_cons.mp inside with rfl | applied
      · exact .push rfl
      · obtain rfl := List.mem_singleton.mp applied
        exact .apply rfl

theorem WellFormed.apply (wellFormed : WellFormed settings s)
    (given : ∀ i, command = .add i → i.Bound s.vars) (done : s.apply command = .ok reply) :
    WellFormed settings reply.session := by
  have proper : command.isProper = true := by
    cases command with
    | add i => simp [Command.isProper, (given i rfl).proper]
    | _ => rfl
  have applied := s.apply_applied proper
  rw [done] at applied
  cases applied with
  | edited edited =>
    exact ⟨wellFormed.configured, edited.colors.trans wellFormed.colors, wellFormed.names,
      wellFormed.sliders, edited.bound given wellFormed.bound⟩
  | viewed | ended =>
    exact ⟨wellFormed.configured, wellFormed.colors, wellFormed.names, wellFormed.sliders,
      wellFormed.bound⟩
  | @slid name slider panel vars named found slid =>
    refine ⟨wellFormed.configured, wellFormed.colors, slid.names.trans wellFormed.names, ?_, ?_⟩
    · rcases slid.panel with rfl | ⟨changed, same, rfl⟩
      · exact wellFormed.sliders
      · exact replace_handles wellFormed.sliders found same
    · exact fun e member i inside => (wellFormed.bound e member i inside).of_names slid.names

theorem WellFormed.next {key : String} {rest : List String} (wellFormed : WellFormed settings s)
    (reads : Command.read s.vars key rest = .ok command) (done : s.apply command = .ok reply) :
    WellFormed settings reply.session := by
  refine wellFormed.apply ?_ done
  rintro i rfl
  exact .of_read reads

theorem Reachable.wellFormed (reachable : Reachable settings s) : WellFormed settings s := by
  refine reachable.invariant (.new settings) ?_ ?_
  · intro s word rest command reply wellFormed reads done
    exact wellFormed.next reads done
  · intro s wellFormed
    exact ⟨wellFormed.configured, wellFormed.colors, wellFormed.names, wellFormed.sliders,
      wellFormed.bound⟩

namespace WellFormed

theorem handle_of_mem (wellFormed : WellFormed settings s) {slider : Slider}
    (member : slider ∈ s.panel.sliders) : slider.var ∈ Panel.handles := by
  rw [← wellFormed.sliders]
  exact List.mem_map_of_mem member

theorem lookup?_handle (wellFormed : WellFormed settings s) :
    ∀ var ∈ Panel.handles, s.vars.lookup? var.name = some var := by
  simp only [Vars.lookup?, wellFormed.names]
  decide

end WellFormed

end Session

end PolishPlotter
