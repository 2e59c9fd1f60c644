import PolishPlotter.Machine.Run

set_option autoImplicit false

namespace PolishPlotter.Machine

section Step

variable (scope : Scope) (limit : Nat) (v x y : Float) (rest : List Float)

theorem push_of_room {items : List Float} (room : items.length < limit) :
    Stack.push ⟨limit, items⟩ v = .ok ⟨limit, v :: items⟩ := by
  have fits : ¬ limit < (v :: items).length := by
    rw [List.length_cons]
    omega
  exact if_neg fits

theorem step_apply_cons (f : Function) :
    step scope ⟨limit, v :: rest⟩ (.apply f) = (f.eval v).map (⟨limit, · :: rest⟩) := by
  cases result : f.eval v <;> simp only [step, Stack.pop, Stack.replaceTop, bind, Except.bind,
    result, Except.map]

theorem step_binary_cons_cons (op : BinaryOp) :
    step scope ⟨limit, x :: y :: rest⟩ (.binary op) =
      (op.eval x y).bind (Stack.push ⟨limit, rest⟩) := rfl

end Step

variable (scope : Scope) (s : Stack Float)

theorem run_cons (i : Instruction) (rest : List Instruction) :
    run scope s (i :: rest) = (step scope s i).bind (run scope · rest) := by
  rw [run]
  cases step scope s i <;> rfl

theorem run_append (front back : List Instruction) :
    run scope s (front ++ back) = (run scope s front).bind (run scope · back) := by
  induction front generalizing s with
  | nil => rfl
  | cons i rest ih =>
    rw [List.cons_append, run_cons, run_cons]
    cases step scope s i with
    | ok t => exact ih t
    | error e => rfl

end PolishPlotter.Machine
