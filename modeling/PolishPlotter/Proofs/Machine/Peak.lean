import PolishPlotter.Proofs.Machine.Depth

set_option autoImplicit false

namespace PolishPlotter.Machine

def freeStep (scope : Scope) (items : List Float) (i : Instruction) : Except Error (List Float) :=
  (step scope ⟨items.length + 1, items⟩ i).map (·.items)

def freeRun (scope : Scope) : List Float → List Instruction → Except Error (List Float)
  | items, [] => .ok items
  | items, i :: rest => (freeStep scope items i).bind (freeRun scope · rest)

-- A run that fails has been no deeper than the stack it fails on.
def peak (scope : Scope) : List Float → List Instruction → Nat
  | items, [] => items.length
  | items, i :: rest =>
    match freeStep scope items i with
    | .ok next => max items.length (peak scope next rest)
    | .error _ => items.length

def freeOutcome (scope : Scope) (instructions : List Instruction) : Except Error Float :=
  match freeRun scope [] instructions with
  | .ok (v :: _) => .ok v
  | .ok [] => .error .noResult
  | .error e => .error e

/-- A step is the free step and then the test of the limit. It may fail of its own accord, but not
for the limit. -/
inductive Moves (scope : Scope) (items : List Float) (i : Instruction) :
    Except Error (List Float) → Prop
  | failed (e : Error) (other : e.code ≠ .overflow)
    (all : ∀ limit, items.length ≤ limit → step scope ⟨limit, items⟩ i = .error e) :
    Moves scope items i (.error e)
  | moved (next : List Float) (deeper : next.length ≤ items.length + 1)
    (all : ∀ limit, items.length ≤ limit →
      step scope ⟨limit, items⟩ i = Stack.checked ⟨limit, next⟩) :
    Moves scope items i (.ok next)

variable {scope : Scope} {limit : Nat} {items : List Float} {instructions : List Instruction}

theorem checked_of_room (room : items.length ≤ limit) :
    Stack.checked (⟨limit, items⟩ : Stack Float) = .ok ⟨limit, items⟩ :=
  if_neg (Nat.not_lt.mpr room)

theorem checked_of_over (beyond : limit < items.length) :
    Stack.checked (⟨limit, items⟩ : Stack Float) = .error .overflow :=
  if_pos beyond

theorem Moves.freeStep_eq {i : Instruction} {result : Except Error (List Float)}
    (moves : Moves scope items i result) : freeStep scope items i = result := by
  unfold freeStep
  cases moves with
  | failed e other all =>
    rw [all _ (Nat.le_succ _)]
    rfl
  | moved next deeper all =>
    rw [all _ (Nat.le_succ _), checked_of_room deeper]
    rfl

theorem exists_moves (scope : Scope) (items : List Float) (i : Instruction) :
    ∃ result, Moves scope items i result := by
  cases i with
  | noop => exact ⟨_, .failed .noopReached nofun fun _ _ => rfl⟩
  | literal v => exact ⟨_, .moved (v :: items) (Nat.le_refl _) fun _ _ => rfl⟩
  | push var => exact ⟨_, .moved (scope.fetch var :: items) (Nat.le_refl _) fun _ _ => rfl⟩
  | dup =>
    cases items with
    | nil => exact ⟨_, .failed .underflow nofun fun _ _ => rfl⟩
    | cons v rest => exact ⟨_, .moved (v :: v :: rest) (Nat.le_refl _) fun _ _ => rfl⟩
  | neg =>
    cases items with
    | nil => exact ⟨_, .failed .underflow nofun fun _ _ => rfl⟩
    | cons v rest =>
      refine ⟨_, .moved (-v :: rest) (Nat.le_succ _) fun limit room => ?_⟩
      have fits : (-v :: rest).length ≤ limit := room
      exact (checked_of_room fits).symm
  | apply f =>
    cases items with
    | nil => exact ⟨_, .failed .underflow nofun fun _ _ => rfl⟩
    | cons v rest =>
      cases result : f.eval v with
      | error e =>
        have pointwise : e.code = .undefined := of_decide_eq_true (apply_pointwise f v result)
        refine ⟨_, .failed e (by simp [pointwise]) fun limit _ => ?_⟩
        rw [step_apply_cons, result]
        rfl
      | ok w =>
        refine ⟨_, .moved (w :: rest) (Nat.le_succ _) fun limit room => ?_⟩
        have fits : (w :: rest).length ≤ limit := room
        rw [step_apply_cons, result, checked_of_room fits]
        rfl
  | binary op =>
    obtain _ | ⟨x, _ | ⟨y, rest⟩⟩ := items
    · exact ⟨_, .failed .underflow nofun fun _ _ => rfl⟩
    · exact ⟨_, .failed .underflow nofun fun _ _ => rfl⟩
    · cases result : op.eval x y with
      | error e =>
        have pointwise : e.code = .undefined := of_decide_eq_true (eval_pointwise op x y result)
        refine ⟨_, .failed e (by simp [pointwise]) fun limit _ => ?_⟩
        rw [step_binary_cons_cons, result]
        rfl
      | ok v =>
        have shorter : (v :: rest).length ≤ (x :: y :: rest).length + 1 := by
          simp only [List.length_cons]
          omega
        refine ⟨_, .moved (v :: rest) shorter fun limit _ => ?_⟩
        rw [step_binary_cons_cons, result]
        rfl

theorem step_moves (scope : Scope) (items : List Float) (i : Instruction) :
    Moves scope items i (freeStep scope items i) := by
  obtain ⟨result, moves⟩ := exists_moves scope items i
  rw [moves.freeStep_eq]
  exact moves

theorem length_le_peak : items.length ≤ peak scope items instructions := by
  cases instructions with
  | nil => exact Nat.le_refl _
  | cons i rest =>
    unfold peak
    split
    · exact Nat.le_max_left ..
    · exact Nat.le_refl _

theorem peak_le : peak scope items instructions ≤ items.length + instructions.length := by
  induction instructions generalizing items with
  | nil => exact Nat.le_refl _
  | cons i rest ih =>
    have moves := step_moves scope items i
    unfold peak
    generalize freeStep scope items i = result at moves
    cases moves with
    | failed => exact Nat.le_add_right ..
    | moved next deeper =>
      have later : peak scope next rest ≤ next.length + rest.length := ih
      simp only [List.length_cons]
      omega

theorem run_eq_freeRun (room : items.length ≤ limit) :
    run scope ⟨limit, items⟩ instructions =
      if limit < peak scope items instructions then .error .overflow
      else (freeRun scope items instructions).map (Stack.mk limit) := by
  induction instructions generalizing items with
  | nil => exact (if_neg (Nat.not_lt.mpr room)).symm
  | cons i rest ih =>
    have moves := step_moves scope items i
    rw [run_cons, peak, freeRun]
    generalize freeStep scope items i = result at moves
    cases moves with
    | failed e other all =>
      rw [all limit room, if_neg (Nat.not_lt.mpr room)]
      rfl
    | moved next deeper all =>
      have deepest : limit < max items.length (peak scope next rest) ↔
          limit < peak scope next rest := by omega
      simp only [all limit room, deepest]
      by_cases fits : next.length ≤ limit
      · rw [checked_of_room fits]
        exact ih fits
      · have beyond : limit < next.length := Nat.lt_of_not_le fits
        rw [checked_of_over beyond, if_pos (Nat.lt_of_lt_of_le beyond length_le_peak)]
        rfl

theorem execute_eq_freeOutcome (limit : Nat) (scope : Scope) (instructions : List Instruction) :
    execute limit scope instructions =
      if limit < peak scope [] instructions then .error .overflow
      else freeOutcome scope instructions := by
  unfold execute freeOutcome
  rw [Stack.empty, run_eq_freeRun (Nat.zero_le _)]
  by_cases beyond : limit < peak scope [] instructions
  · simp only [if_pos beyond]
  · simp only [if_neg beyond]
    rcases freeRun scope [] instructions with e | (_ | ⟨v, rest⟩) <;> rfl

theorem freeRun_code {e : Error} (failed : freeRun scope items instructions = .error e) :
    e.code ≠ .overflow := by
  induction instructions generalizing items with
  | nil => cases failed
  | cons i rest ih =>
    have moves := step_moves scope items i
    rw [freeRun] at failed
    generalize freeStep scope items i = result at moves failed
    cases moves with
    | failed f other =>
      cases failed
      exact other
    | moved next => exact ih failed

theorem freeOutcome_code {e : Error} (failed : freeOutcome scope instructions = .error e) :
    e.code ≠ .overflow := by
  unfold freeOutcome at failed
  split at failed
  · cases failed
  · cases failed
    exact nofun
  · next stopped =>
    cases failed
    exact freeRun_code stopped

end PolishPlotter.Machine
