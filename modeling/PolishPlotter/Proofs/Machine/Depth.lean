import PolishPlotter.Proofs.Machine.Step

set_option autoImplicit false

namespace PolishPlotter.Machine

def depthPushed (limit depth : Nat) : Except Error Nat :=
  if limit < depth + 1 then .error .overflow else .ok (depth + 1)

def depthStep (limit depth : Nat) : Instruction → Except Error Nat
  | .literal _ | .push _ => depthPushed limit depth
  | .binary _ => if depth < 2 then .error .underflow else depthPushed limit (depth - 2)
  | .neg | .apply _ => if depth = 0 then .error .underflow else .ok depth
  | .dup => if depth = 0 then .error .underflow else depthPushed limit depth
  | .noop => .error .noopReached

def depthRun (limit : Nat) : Nat → List Instruction → Except Error Nat
  | depth, [] => .ok depth
  | depth, i :: rest =>
    match depthStep limit depth i with
    | .ok depth => depthRun limit depth rest
    | .error e => .error e

/-- The error that a sequence ends with wherever no value is undefined. -/
def shape (limit : Nat) (instructions : List Instruction) : Option Error :=
  match depthRun limit 0 instructions with
  | .error e => some e
  | .ok 0 => some .noResult
  | .ok (_ + 1) => none

-- A run may stop before its depth does, but only at a pointwise error.
inductive Follows (limit : Nat) : Except Error (Stack Float) → Except Error Nat → Prop
  | ok (s : Stack Float) : s.limit = limit → Follows limit (.ok s) (.ok s.size)
  | failed (e : Error) : Follows limit (.error e) (.error e)
  | undefined (e : Error) (depth : Except Error Nat) :
    e.isPointwise = true → Follows limit (.error e) depth

theorem push_follows (s : Stack Float) (v : Float) :
    Follows s.limit (s.push v) (depthPushed s.limit s.size) := by
  have limit_store : (s.store v).limit = s.limit := rfl
  simp only [Stack.push, Stack.checked, depthPushed, limit_store, Stack.size_store]
  split
  · exact .failed _
  · exact .ok (s.store v) rfl

theorem eval_pointwise (op : BinaryOp) (x y : Float) {e : Error} (h : op.eval x y = .error e) :
    e.isPointwise = true := by
  cases op <;> simp only [BinaryOp.eval, reduceCtorEq] at h
  all_goals
    split at h
    · cases h
      rfl
    · cases h

theorem apply_pointwise (f : Function) (v : Float) {e : Error} (h : f.eval v = .error e) :
    e.isPointwise = true := by
  unfold Function.eval at h
  split at h
  · cases h
  · cases h
    rfl

theorem step_follows (scope : Scope) (s : Stack Float) (i : Instruction) :
    Follows s.limit (step scope s i) (depthStep s.limit s.size i) := by
  cases i with
  | literal v => exact push_follows s v
  | push var => exact push_follows s _
  | noop => exact .failed _
  | neg =>
    obtain ⟨limit, _ | ⟨v, rest⟩⟩ := s
    · exact .failed _
    · exact .ok ⟨limit, -v :: rest⟩ rfl
  | dup =>
    obtain ⟨limit, _ | ⟨v, rest⟩⟩ := s
    · exact .failed _
    · exact push_follows ⟨limit, v :: rest⟩ v
  | apply f =>
    obtain ⟨limit, _ | ⟨v, rest⟩⟩ := s
    · exact .failed _
    · rw [step_apply_cons]
      cases result : f.eval v with
      | ok w => exact .ok ⟨limit, w :: rest⟩ rfl
      | error e => exact .undefined e _ (apply_pointwise f v result)
  | binary op =>
    obtain ⟨limit, _ | ⟨x, _ | ⟨y, rest⟩⟩⟩ := s
    · exact .failed _
    · exact .failed _
    · rw [step_binary_cons_cons]
      cases result : op.eval x y with
      | ok v => exact push_follows ⟨limit, rest⟩ v
      | error e => exact .undefined e _ (eval_pointwise op x y result)

theorem run_follows (scope : Scope) (s : Stack Float) (instructions : List Instruction) :
    Follows s.limit (run scope s instructions) (depthRun s.limit s.size instructions) := by
  induction instructions generalizing s with
  | nil => exact .ok s rfl
  | cons i rest ih =>
    have first := step_follows scope s i
    unfold run depthRun
    cases stepped : step scope s i with
    | ok t =>
      rw [stepped] at first
      generalize depthStep s.limit s.size i = depth at first ⊢
      cases first with
      | ok _ same => simpa only [same] using ih t
    | error e =>
      rw [stepped] at first
      generalize depthStep s.limit s.size i = depth at first ⊢
      cases first with
      | failed => exact .failed e
      | undefined _ _ pointwise => exact .undefined e _ pointwise

theorem execute_ok_shape {limit : Nat} {scope : Scope} {instructions : List Instruction} {v : Float}
    (h : execute limit scope instructions = .ok v) : shape limit instructions = none := by
  have followed := run_follows scope (.empty limit) instructions
  unfold execute at h
  unfold shape
  change Follows limit _ (depthRun limit 0 instructions) at followed
  generalize run scope (.empty limit) instructions = result at h followed
  generalize depthRun limit 0 instructions = depth at followed ⊢
  cases followed with
  | failed | undefined => cases h
  | ok s =>
    obtain ⟨_, _ | ⟨w, rest⟩⟩ := s
    · cases h
    · rfl

theorem execute_error_shape {limit : Nat} {scope : Scope} {instructions : List Instruction}
    {e : Error} (h : execute limit scope instructions = .error e) :
    e.isPointwise = true ∨ shape limit instructions = some e := by
  have followed := run_follows scope (.empty limit) instructions
  unfold execute at h
  unfold shape
  change Follows limit _ (depthRun limit 0 instructions) at followed
  generalize run scope (.empty limit) instructions = result at h followed
  generalize depthRun limit 0 instructions = depth at followed ⊢
  cases followed with
  | undefined _ _ pointwise =>
    cases h
    exact .inl pointwise
  | failed =>
    cases h
    exact .inr rfl
  | ok s =>
    obtain ⟨_, _ | ⟨w, rest⟩⟩ := s
    · cases h
      exact .inr rfl
    · cases h

theorem depthPushed_error {limit depth : Nat} {e : Error} (h : depthPushed limit depth = .error e) :
    e = .overflow := by
  unfold depthPushed at h
  split at h
  · cases h
    rfl
  · cases h

theorem depthPushed_code {limit depth : Nat} {e : Error} (h : depthPushed limit depth = .error e) :
    e.code ≠ .internal := by
  rw [depthPushed_error h]
  exact nofun

def stepErrors : List Error := [.underflow, .overflow, .noopReached]

theorem depthStep_error {limit depth : Nat} {i : Instruction} {e : Error}
    (h : depthStep limit depth i = .error e) : e ∈ stepErrors := by
  have overflow {depth : Nat} (h : depthPushed limit depth = .error e) : e ∈ stepErrors := by
    rw [depthPushed_error h]
    simp [stepErrors]
  cases i with
  | literal | push => exact overflow h
  | noop =>
    cases h
    simp [stepErrors]
  | neg | apply =>
    simp only [depthStep] at h
    split at h
    · cases h
      simp [stepErrors]
    · cases h
  | binary | dup =>
    simp only [depthStep] at h
    split at h
    · cases h
      simp [stepErrors]
    · exact overflow h

theorem depthRun_error {limit depth : Nat} {instructions : List Instruction} {e : Error}
    (h : depthRun limit depth instructions = .error e) : e ∈ stepErrors := by
  induction instructions generalizing depth with
  | nil => cases h
  | cons i rest ih =>
    unfold depthRun at h
    cases stepped : depthStep limit depth i with
    | ok next =>
      rw [stepped] at h
      exact ih h
    | error f =>
      rw [stepped] at h
      cases h
      exact depthStep_error stepped

theorem depthStep_code {limit depth : Nat} {i : Instruction} {e : Error}
    (proper : i.isNoop = false) (h : depthStep limit depth i = .error e) : e.code ≠ .internal := by
  cases i with
  | noop => cases proper
  | literal | push => exact depthPushed_code h
  | binary | dup =>
    simp only [depthStep] at h
    split at h
    · cases h
      exact nofun
    · exact depthPushed_code h
  | neg | apply =>
    simp only [depthStep] at h
    split at h
    · cases h
      exact nofun
    · cases h

-- Only an empty key is an internal error.
theorem depthRun_code {limit depth : Nat} {instructions : List Instruction} {e : Error}
    (proper : ∀ i ∈ instructions, i.isNoop = false)
    (h : depthRun limit depth instructions = .error e) : e.code ≠ .internal := by
  induction instructions generalizing depth with
  | nil => cases h
  | cons i rest ih =>
    unfold depthRun at h
    cases stepped : depthStep limit depth i with
    | ok next =>
      rw [stepped] at h
      exact ih (fun j member => proper j (List.mem_cons_of_mem i member)) h
    | error f =>
      rw [stepped] at h
      cases h
      exact depthStep_code (proper i List.mem_cons_self) stepped

theorem execute_code {limit : Nat} {scope : Scope} {instructions : List Instruction} {e : Error}
    (proper : ∀ i ∈ instructions, i.isNoop = false)
    (h : execute limit scope instructions = .error e) : e.code ≠ .internal := by
  rcases execute_error_shape h with pointwise | found
  · intro internal
    rw [Error.isPointwise, internal] at pointwise
    cases pointwise
  · unfold shape at found
    split at found
    · next f failed =>
      cases found
      exact depthRun_code proper failed
    · cases found
      exact nofun
    · cases found

end PolishPlotter.Machine
