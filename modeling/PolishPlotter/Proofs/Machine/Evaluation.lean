import PolishPlotter.Proofs.Machine.Tree

set_option autoImplicit false

namespace PolishPlotter.Machine

variable {limit : Nat} {scope : Scope} {front back instructions : List Instruction} {F : Forest}

theorem run_eq_state (room : instructions.length ≤ limit)
    (h : Forest.empty.growAll instructions = some F) :
    run scope (.empty limit) instructions = F.state scope limit := by
  have bound : Forest.empty.trees.length + instructions.length ≤ limit := by
    simpa [Forest.empty] using room
  exact Forest.growAll_state bound h

theorem execute_of_growAll (room : instructions.length ≤ limit)
    (h : Forest.empty.growAll instructions = some F) :
    execute limit scope instructions =
      match F.fault? scope, F.trees with
      | some e, _ => .error e
      | none, [] => .error .noResult
      | none, t :: _ => .ok (t.value scope) := by
  unfold execute
  rw [run_eq_state room h]
  unfold Forest.state
  obtain ⟨trees, built⟩ := F
  cases Forest.fault? scope ⟨trees, built⟩ with
  | some e => rfl
  | none => cases trees <;> rfl

theorem execute_of_stuck {i : Instruction} (room : (front ++ i :: back).length ≤ limit)
    (proper : i.isNoop = false) (h : Forest.empty.growAll front = some F)
    (stuck : F.grow i = none) :
    execute limit scope (front ++ i :: back) = .error ((F.fault? scope).getD .underflow) := by
  have early : front.length ≤ limit := by
    rw [List.length_append] at room
    omega
  have failed : run scope (.empty limit) (front ++ [i]) =
      .error ((F.fault? scope).getD .underflow) := by
    rw [run_append, run_eq_state early h, ← Forest.grow_none proper stuck]
    cases F.state scope limit with
    | error e => rfl
    | ok s =>
      change run scope s [i] = step scope s i
      rw [run_cons]
      cases step scope s i <;> rfl
  unfold execute
  rw [List.append_cons, run_append, failed]
  rfl

/-- A sequence without empty keys fails at the first instruction that finds too few trees, unless a
fault comes first; else its result is the value of the top tree, unless a node built on the way, in
whatever tree, is at fault: then it is the error of the first such node. -/
theorem execute_evaluates_trees (instructions : List Instruction)
    (proper : ∀ i ∈ instructions, i.isNoop = false) (limit : Nat)
    (room : instructions.length ≤ limit) (scope : Scope) :
    (instructions = [] → execute limit scope instructions = .error .noResult) ∧
    (Forest.empty.growAll instructions = none →
      ∃ front i back F, instructions = front ++ i :: back ∧
        Forest.empty.growAll front = some F ∧ F.grow i = none ∧
        (F.fault? scope = none → execute limit scope instructions = .error .underflow) ∧
        ∀ e, F.fault? scope = some e → e.code = .undefined ∧
          run scope (.empty limit) front = .error e ∧
          execute limit scope instructions = .error e) ∧
    (∀ F, Forest.empty.growAll instructions = some F → instructions ≠ [] →
      ∃ t rest, F.trees = t :: rest ∧
        (F.fault? scope = none → execute limit scope instructions = .ok (t.value scope)) ∧
        ∀ e, F.fault? scope = some e → e.code = .undefined ∧
          execute limit scope instructions = .error e) := by
  refine ⟨?_, ?_, ?_⟩
  · intro none_given
    rw [none_given]
    rfl
  · intro stuck
    obtain ⟨front, i, back, F, rfl, grown, short⟩ := Forest.split_of_growAll_none stuck
    have failed : execute limit scope (front ++ i :: back) =
        .error ((F.fault? scope).getD .underflow) :=
      execute_of_stuck room (proper i (by simp)) grown short
    have early : front.length ≤ limit := by
      rw [List.length_append] at room
      omega
    refine ⟨front, i, back, F, rfl, grown, short, ?_, ?_⟩
    · intro clean
      rw [failed, clean]
      rfl
    · intro e fault
      refine ⟨Forest.code_of_fault? fault, ?_, ?_⟩
      · rw [run_eq_state early grown, Forest.state, fault]
      · rw [failed, fault]
        rfl
  · intro F grown given
    cases instructions with
    | nil => exact absurd rfl given
    | cons i rest =>
      obtain ⟨t, below, trees⟩ := List.exists_cons_of_ne_nil (Forest.growAll_ne_nil grown)
      refine ⟨t, below, trees, ?_, ?_⟩
      · intro clean
        rw [execute_of_growAll room grown, clean, trees]
      · intro e fault
        exact ⟨Forest.code_of_fault? fault, by rw [execute_of_growAll room grown, fault]⟩

-- `x 1 / 2`: the quotient `1 / x`, with a two on top of it.
def quotient : List Instruction := [.push Vars.free, .literal 1, .binary .div, .literal 2]

-- The quotient is left beneath the result, and is at fault all the same where `x` is zero.
theorem quotient_beneath_result :
    (∀ i ∈ quotient, i.isNoop = false) ∧ quotient.length ≤ 4 ∧
      execute 4 ⟨Vars.new, 0⟩ quotient = .error .divisionByZero ∧
      execute 4 ⟨Vars.new, 3⟩ quotient = .ok 2 := by
  have proper : ∀ i ∈ quotient, i.isNoop = false := by simp [quotient, Instruction.isNoop]
  have room : quotient.length ≤ 4 := by decide
  have given : quotient ≠ [] := by simp [quotient]
  refine ⟨proper, room, ?_, ?_⟩
  · obtain ⟨t, rest, -, -, failed⟩ :=
      (execute_evaluates_trees quotient proper 4 room ⟨Vars.new, 0⟩).2.2 _ rfl given
    exact (failed .divisionByZero (by decide)).2
  · obtain ⟨t, rest, trees, evaluated, -⟩ :=
      (execute_evaluates_trees quotient proper 4 room ⟨Vars.new, 3⟩).2.2 _ rfl given
    cases trees
    exact evaluated (by decide)

end PolishPlotter.Machine
