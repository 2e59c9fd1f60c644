import PolishPlotter.Proofs.Machine.Depth
import PolishPlotter.Proofs.Screen.Pen
import PolishPlotter.Proofs.Screen.Scan
import PolishPlotter.Screen.Cursor

set_option autoImplicit false

namespace PolishPlotter.Screen

open Machine

section Shape

variable {limit : Nat} {instructions : List Instruction}

theorem not_ok_of_shape {e : Error} (h : shape limit instructions = some e) (scope : Scope)
    (v : Float) : execute limit scope instructions ≠ .ok v := by
  intro ok
  have empty := execute_ok_shape ok
  rw [h] at empty
  cases empty

theorem shape_of_sample_error {s : Sampler} {view : Viewport Float} {vars : Vars} {e : Error}
    (h : (s.sample limit instructions view vars).error = some e) :
    shape limit instructions = some e := by
  obtain ⟨c, member, stopped⟩ := List.exists_of_findSome?_eq_some h
  obtain ⟨i, rfl⟩ := Sampler.mem_scanFrom _ member
  obtain ⟨failed, structural⟩ := Column.error?_ofResult.mp stopped
  obtain pointwise | found := execute_error_shape failed
  · rw [structural] at pointwise
    cases pointwise
  · exact found

theorem column_point?_of_shape {e : Error} (h : shape limit instructions = some e) (s : Sampler)
    (view : Viewport Float) (vars : Vars) (i : Nat) :
    (s.column limit instructions view vars i).point? = none := by
  simp only [Sampler.column]
  cases result : execute limit ⟨vars, s.columnToX view i⟩ instructions with
  | ok v => exact absurd result (not_ok_of_shape h _ v)
  | error f =>
    simp only [Column.ofResult]
    split <;> rfl

theorem runs_of_shape {e : Error} (h : shape limit instructions = some e) (s : Sampler)
    (view : Viewport Float) (vars : Vars) :
    (s.sample limit instructions view vars).runs = [] := by
  have undrawn : ∀ c ∈ s.scan limit instructions view vars, c.point? = none := by
    intro c member
    obtain ⟨i, rfl⟩ := Sampler.mem_scanFrom _ member
    exact column_point?_of_shape h s view vars i
  have runs := Pen.runs_foldl_next Pen.lifted undrawn
  simp only [Sampler.sample, Curve.ofColumns, Pen.after, Pen.drawing, runs]
  rfl

theorem traceAt_of_shape {e : Error} (h : shape limit instructions = some e) (vars : Vars)
    (x : Float) : (traceAt limit instructions vars x).y = none := by
  unfold traceAt
  cases result : execute limit ⟨vars, x⟩ instructions with
  | ok v => exact absurd result (not_ok_of_shape h _ v)
  | error f => rfl

end Shape

theorem structural_errors_ignore_scope (limit : Nat) (instructions : List Instruction) :
    (∀ σ τ : Scope,
      (∀ v, execute limit σ instructions = .ok v →
        (∃ w, execute limit τ instructions = .ok w) ∨
          ∃ e, execute limit τ instructions = .error e ∧ e.code = .undefined) ∧
      (∀ e f, execute limit σ instructions = .error e → execute limit τ instructions = .error f →
        e.code ≠ .undefined → f.code ≠ .undefined → e = f)) ∧
    (∀ (s : Sampler) (view : Viewport Float) (vars : Vars) (e : Error),
      (s.sample limit instructions view vars).error = some e →
        (s.sample limit instructions view vars).runs = [] ∧
        (∀ (s' : Sampler) (view' : Viewport Float) (vars' : Vars) (e' : Error),
          (s'.sample limit instructions view' vars').error = some e' → e' = e) ∧
        ∀ (vars' : Vars) (x : Float), (traceAt limit instructions vars' x).y = none) := by
  refine ⟨fun σ τ => ⟨?_, ?_⟩, ?_⟩
  · intro v ok
    cases result : execute limit τ instructions with
    | ok w => exact .inl ⟨w, rfl⟩
    | error e =>
      obtain pointwise | found := execute_error_shape result
      · exact .inr ⟨e, rfl, of_decide_eq_true pointwise⟩
      · exact absurd ok (not_ok_of_shape found σ v)
  · intro e f eFails fFails eStructural fStructural
    have eShape := (execute_error_shape eFails).resolve_left fun h =>
      eStructural (of_decide_eq_true h)
    have fShape := (execute_error_shape fFails).resolve_left fun h =>
      fStructural (of_decide_eq_true h)
    exact Option.some.inj (eShape.symm.trans fShape)
  · intro s view vars e failed
    have found := shape_of_sample_error failed
    refine ⟨runs_of_shape found s view vars, ?_, traceAt_of_shape found⟩
    intro s' view' vars' e' failed'
    exact Option.some.inj ((shape_of_sample_error failed').symm.trans found)

end PolishPlotter.Screen
