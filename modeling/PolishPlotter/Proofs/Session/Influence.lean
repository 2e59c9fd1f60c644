import PolishPlotter.Proofs.Screen.Scan
import PolishPlotter.Proofs.Session.Vocabulary

set_option autoImplicit false

namespace PolishPlotter

open Controls Machine Screen

namespace Screen

variable {instructions : List Instruction} {v w : Vars}

structure Alike (instructions : List Instruction) (v w : Vars) : Prop where
  execute (limit : Nat) (x : Float) :
    execute limit ⟨v, x⟩ instructions = execute limit ⟨w, x⟩ instructions
  sample (s : Sampler) (limit : Nat) (view : Viewport Float) :
    s.sample limit instructions view v = s.sample limit instructions view w
  traceAt (limit : Nat) (x : Float) :
    traceAt limit instructions v x = traceAt limit instructions w x

theorem Alike.of_agree (agree : Vars.AgreeOn instructions v w) : Alike instructions v w where
  execute := execute_congr agree
  sample s limit view := congrArg Curve.ofColumns (s.scan_congr view (execute_congr agree limit))
  traceAt limit x := by simp only [Screen.traceAt, execute_congr agree]

end Screen

def Machine.Instruction.mentions (name : String) : Instruction → Bool
  | .push var => var.name = name
  | _ => false

namespace Controls.Equation

def Ignores (e : Equation) (name : String) : Prop :=
  ∀ i ∈ e.instructions, i.mentions name = false

instance (e : Equation) (name : String) : Decidable (e.Ignores name) :=
  inferInstanceAs (Decidable (∀ i ∈ e.instructions, i.mentions name = false))

theorem Ignores.name_ne {e : Equation} {name : String} {var : Var} (ignores : e.Ignores name)
    (pushed : .push var ∈ e.instructions) : var.name ≠ name :=
  of_decide_eq_false (ignores (.push var) pushed)

end Controls.Equation

namespace Session

structure Steady (e : Equation) (s t : Session) : Prop where
  settings : t.settings = s.settings
  view : t.view = s.view
  slots : t.slots = s.slots
  vars : Vars.AgreeOn e.instructions t.vars s.vars

variable {settings : Settings} {s t : Session} {e : Equation} {command : Command} {reply : Reply}
  {key name : String} {typed args : List String} {taken count : Nat}

namespace Steady

theorem refl (e : Equation) (s : Session) : Steady e s s := ⟨rfl, rfl, rfl, fun _ _ _ => rfl⟩

theorem trans {u : Session} (first : Steady e s t) (second : Steady e t u) : Steady e s u where
  settings := second.settings.trans first.settings
  view := second.view.trans first.view
  slots := second.slots.trans first.slots
  vars var pushed bound := (second.vars var pushed bound).trans (first.vars var pushed bound)

theorem scan (steady : Steady e s t) : t.scan e = s.scan e := by
  rw [Session.scan, Session.scan, steady.settings, steady.view]
  exact Sampler.screen.scan_congr _ (execute_congr steady.vars _)

theorem curve (steady : Steady e s t) {i : Nat} (shown : s.slots.get? i = some e) :
    t.slots.get? i = some e ∧ t.curves[i]? = s.curves[i]? := by
  have curve (u : Session) : u.curves[i]? = (u.slots.get? i).map (.ofColumns <| u.scan ·) := by
    simp [curves, scans, Slots.get?, Function.comp_def]
  have same : t.slots.get? i = some e := by rw [steady.slots, shown]
  refine ⟨same, ?_⟩
  rw [curve t, curve s, same, shown, Option.map_some, Option.map_some, steady.scan]

end Steady

section Sliders

variable (wellFormed : WellFormed settings s) (member : e ∈ s.slots.equations)

include wellFormed member

-- The cell of a slider is not that of a variable of another name.
theorem agreeOn_slider {slider : Slider} (found : s.panel.find? name = some slider)
    (ignores : e.Ignores name) (v : Float) :
    Vars.AgreeOn e.instructions (s.vars.store slider.var v) s.vars := by
  intro var pushed _
  have named : slider.var.name = name := by simpa using List.find?_some found
  have own : s.vars.lookup? slider.var.name = some slider.var :=
    wellFormed.lookup?_handle _ (wellFormed.handle_of_mem (List.mem_of_find?_eq_some found))
  have other : s.vars.lookup? var.name = some var := by
    cases wellFormed.bound e member _ pushed with
    | push found => exact found
  refine Vars.fetch_store_of_ne (Vars.index_ne_of_name_ne own other ?_) v
  rw [named]
  exact ignores.name_ne pushed

theorem Steady.apply (named : command.slider? = some name) (ignores : e.Ignores name)
    (done : s.apply command = .ok reply) : Steady e s reply.session := by
  cases found : s.panel.find? name with
  | none =>
    rw [apply_missing named found] at done
    cases done
  | some slider =>
    obtain ⟨panel, vars, applied, slid⟩ := apply_slid named found
    rw [applied] at done
    cases done
    refine ⟨rfl, rfl, rfl, ?_⟩
    rcases slid.vars with rfl | ⟨v, rfl⟩
    · exact fun _ _ _ => rfl
    · exact agreeOn_slider wellFormed member found ignores v

theorem enterWords_steady
    (only : ∀ command ∈ s.executed taken typed,
      ∃ name, command.slider? = some name ∧ e.Ignores name) :
    Steady e s (s.enterWords taken typed).session := by
  refine (enterWords_keeps
    (P := fun t => WellFormed settings t ∧ e ∈ t.slots.equations ∧ Steady e s t) ?_
    ⟨wellFormed, member, .refl e s⟩ only).2.2
  rintro t key rest command reply ⟨wellFormed, member, steady⟩ ⟨name, named, ignores⟩ reads done
  have next : Steady e t reply.session := .apply wellFormed member named ignores done
  exact ⟨wellFormed.next reads done, next.slots ▸ member, steady.trans next⟩

end Sliders

def sliderKeys : List (String × Nat) :=
  [("set", 2), ("range", 3), ("min", 1), ("max", 1), ("reset", 1)]

theorem slider_of_spelled (listed : (key, count) ∈ sliderKeys)
    (spelled : Command.Spelled command key args) :
    command.slider? = args.head? ∧ args.length = count ∧ command.argumentCount = count := by
  cases spelled with
  | set | range | minimum | maximum | reset =>
    simp only [sliderKeys, List.mem_cons, Prod.mk.injEq, List.not_mem_nil] at listed
    obtain rfl : count = _ := by simpa using listed
    exact ⟨rfl, rfl, rfl⟩
  | _ => simp [sliderKeys] at listed

theorem slider_of_read (wellFormed : WellFormed settings s) (listed : (key, count) ∈ sliderKeys)
    (reads : Command.read s.vars key (name :: args) = .ok command) :
    command.slider? = some name ∧ command.argumentCount = count := by
  have keyed : ∀ pair ∈ sliderKeys, pair.1 ∈ Command.keys ∧ 0 < pair.2 := by decide
  rw [Command.read_key wellFormed.names (keyed _ listed).1] at reads
  obtain ⟨own, later, split, spelled, -⟩ := Command.ofKey_readOff reads
  obtain ⟨named, size, takes⟩ := slider_of_spelled listed spelled
  refine ⟨?_, takes⟩
  cases own with
  | nil => exact absurd (keyed _ listed).2 (by simp [← size])
  | cons first more =>
    obtain ⟨rfl, -⟩ := List.cons.inj split
    exact named

theorem executed_slider (wellFormed : WellFormed settings s) (listed : (key, count) ∈ sliderKeys)
    (short : args.length < count) :
    ∀ command ∈ s.executed 0 (key :: name :: args), command.slider? = some name := by
  intro command carried
  cases attempted : s.attempt key (name :: args) with
  | error refusal => simp [executed, attempted] at carried
  | ok pair =>
    obtain ⟨only, t, event, notices⟩ := pair
    obtain ⟨named, takes⟩ := slider_of_read wellFormed listed (attempt_eq_ok.mp attempted).1
    have alone : s.executed 0 (key :: name :: args) = [only] := by
      cases event with
      | redraw =>
        have taken : (name :: args).length ≤ only.argumentCount := by
          rw [takes]
          exact short
        rw [executed_next attempted, executed_of_taken t taken]
      | message | trace | quit => exact executed_last attempted (by simp)
    rw [alone] at carried
    rw [List.mem_singleton.mp carried]
    exact named

theorem curves_depend_on_pushed_variables :
    (∀ (instructions : List Instruction) (v w : Vars), Vars.AgreeOn instructions v w →
      Alike instructions v w) ∧
    (∀ (instructions : List Instruction) (vars : Vars) (value : Float),
      Alike instructions (vars.store Vars.free value) vars) ∧
    ∀ (settings : Settings) (s : Session), Reachable settings s →
      ∀ (line key name : String) (args : List String) (count : Nat),
        words line = key :: name :: args → (key, count) ∈ sliderKeys → args.length < count →
        ∀ (i : Nat) (e : Equation), s.slots.get? i = some e → e.Ignores name →
          (s.enter line).session.slots.get? i = some e ∧
            (s.enter line).session.curves[i]? = s.curves[i]? := by
  refine ⟨fun _ _ _ => .of_agree, ?_, ?_⟩
  · intro instructions vars value
    exact .of_agree (Vars.agreeOn_store_free instructions vars value)
  · intro settings s reachable line key name args count typed listed short i e shown ignores
    have wellFormed := reachable.wellFormed
    have member : e ∈ s.slots.equations := Vector.mem_of_getElem? shown
    have steady : Steady e s (s.enter line).session := by
      rw [enter_eq, typed]
      refine enterWords_steady wellFormed member fun command carried => ?_
      exact ⟨name, executed_slider wellFormed listed short command carried, ignores⟩
    exact steady.curve shown

def rising : Session := ((new .default).enter "clear a x *").session

theorem rising_ignores_b :
    Reachable .default rising ∧ rising.transcript = "a x *" ∧
      (rising.enter "set b 2").session.curves[0]? = rising.curves[0]? := by
  have reachable : Reachable .default rising := .enter _ .new
  have ignores : rising.slots.equations[0].Ignores "b" := by
    rw [rising, enter_eq]
    decide +kernel
  have shown : rising.transcript = "a x *" := by
    rw [rising, enter_eq]
    decide +kernel
  have typed : words "set b 2" = ["set", "b", "2"] := by decide
  obtain ⟨-, same⟩ := curves_depend_on_pushed_variables.2.2 .default rising reachable "set b 2"
    "set" "b" ["2"] 2 typed (by decide) (by decide) 0 _ rfl ignores
  exact ⟨reachable, shown, same⟩

end Session

end PolishPlotter
