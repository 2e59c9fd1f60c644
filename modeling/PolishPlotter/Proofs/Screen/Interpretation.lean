import PolishPlotter.Proofs.Binary64.Order
import PolishPlotter.Proofs.Machine.Step
import PolishPlotter.Proofs.Screen.Scan
import PolishPlotter.Screen.Cursor

set_option autoImplicit false

namespace PolishPlotter

namespace Machine

-- NaN compares with nothing, so no domain keeps it out.
theorem Domain.admits_of_isNaN (d : Domain) {v : Float} (nan : v.isNaN = true) :
    d.admits v = true := by
  have apart : ¬ v ≤ 0 := by
    intro le
    have number := (Binary64.numbers_of_le le).1
    rw [nan] at number
    cases number
  cases d with
  | any => rfl
  | nonNegative => simp [admits, mt Binary64.le_of_lt apart]
  | positive => simp [admits, apart]

structure Function.AgreesInside (f g : Function) : Prop where
  name : g.name = f.name
  domain : g.domain = f.domain
  call : ∀ v, f.domain.admits v = true → g.call v = f.call v

inductive Instruction.AgreesInside : Instruction → Instruction → Prop
  | same (i : Instruction) : AgreesInside i i
  | apply {f g : Function} (inside : f.AgreesInside g) : AgreesInside (.apply f) (.apply g)

variable {f g : Function} {i j : Instruction} {instructions other : List Instruction}

theorem Function.AgreesInside.eval (inside : f.AgreesInside g) (v : Float) :
    g.eval v = f.eval v := by
  unfold Function.eval
  rw [inside.domain]
  split
  · next admitted => rw [inside.call v admitted]
  · rfl

theorem step_inside (inside : i.AgreesInside j) (scope : Scope) (s : Stack Float) :
    step scope s j = step scope s i := by
  cases inside with
  | same => rfl
  | apply inside => simp only [step, inside.eval]

theorem run_inside (inside : List.Forall₂ Instruction.AgreesInside instructions other)
    (scope : Scope) (s : Stack Float) : run scope s other = run scope s instructions := by
  induction inside generalizing s with
  | nil => rfl
  | cons first _ ih =>
    rw [run_cons, run_cons, step_inside first]
    simp only [ih]

theorem execute_inside (inside : List.Forall₂ Instruction.AgreesInside instructions other)
    (limit : Nat) (scope : Scope) :
    execute limit scope other = execute limit scope instructions := by
  simp only [execute, run_inside inside]

end Machine

namespace Screen

open Machine

theorem functions_asked_inside_domain :
    (∀ (d : Domain) (v : Float), v.isNaN = true → d.admits v = true) ∧
    ∀ instructions other : List Instruction,
      List.Forall₂ Instruction.AgreesInside instructions other →
      (∀ (limit : Nat) (scope : Scope),
        execute limit scope other = execute limit scope instructions) ∧
      (∀ (s : Sampler) (limit : Nat) (view : Viewport Float) (vars : Vars),
        s.sample limit other view vars = s.sample limit instructions view vars) ∧
      (∀ (limit : Nat) (vars : Vars) (x : Float),
        traceAt limit other vars x = traceAt limit instructions vars x) ∧
      ∀ (limit : Nat) (view : Viewport Float) (vars : Vars) (cursor : Cursor) (snapped : Bool),
        trace limit other view vars cursor snapped =
          trace limit instructions view vars cursor snapped := by
  refine ⟨fun d _ => d.admits_of_isNaN, fun instructions other inside => ?_⟩
  have executed := execute_inside inside
  have traced (limit : Nat) (vars : Vars) (x : Float) :
      traceAt limit other vars x = traceAt limit instructions vars x := by
    simp only [traceAt, executed]
  refine ⟨executed, ?_, traced, ?_⟩
  · intro s limit view vars
    exact congrArg Curve.ofColumns (s.scan_congr view fun x => executed limit ⟨vars, x⟩)
  · intro limit view vars cursor snapped
    exact traced limit vars _

-- A function of positive numbers that gives itself away at all others.
def halved (elsewhere : Float) : Function :=
  ⟨"half", fun v => if v ≤ 0 then elsewhere else v / 2, .positive⟩

theorem halved_inside (u v : Float) : (halved u).AgreesInside (halved v) := by
  refine ⟨rfl, rfl, fun w admitted => ?_⟩
  have positive : ¬ w ≤ 0 := by simpa [halved, Domain.admits] using admitted
  simp [halved, positive]

def halving (elsewhere : Float) : List Instruction := [.push Vars.free, .apply (halved elsewhere)]

theorem halving_keeps_quiet :
    (halved 7).call (-1) ≠ (halved 8).call (-1) ∧
      execute 256 ⟨Vars.new, -1⟩ (halving 8) = execute 256 ⟨Vars.new, -1⟩ (halving 7) ∧
      Sampler.screen.sample 256 (halving 8) .default Vars.new =
        Sampler.screen.sample 256 (halving 7) .default Vars.new ∧
      traceAt 256 (halving 8) Vars.new (-1) = traceAt 256 (halving 7) Vars.new (-1) ∧
      (traceAt 256 (halving 7) Vars.new (-1)).y = none ∧
      (traceAt 256 (halving 7) Vars.new 4).y = some 2 := by
  obtain ⟨executed, sampled, traced, -⟩ := functions_asked_inside_domain.2 (halving 7) (halving 8)
    (.cons (.same _) (.cons (.apply (halved_inside 7 8)) .nil))
  exact ⟨by decide +kernel, executed _ _, sampled _ _ _ _, traced _ _ _, by decide +kernel,
    by decide +kernel⟩

end Screen

end PolishPlotter
