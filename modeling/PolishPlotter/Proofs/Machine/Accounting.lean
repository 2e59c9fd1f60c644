import PolishPlotter.Proofs.Machine.Depth

set_option autoImplicit false

namespace PolishPlotter.Machine

namespace Instruction

-- Literals, variables and copies leave one value more than they find, operators one less.
def pushes : Instruction → Bool
  | .literal _ | .push _ | .dup => true
  | _ => false

def combines : Instruction → Bool
  | .binary _ => true
  | _ => false

end Instruction

section Depth

variable {limit depth next : Nat} {i : Instruction} {instructions : List Instruction}

theorem depthPushed_ok (h : depthPushed limit depth = .ok next) :
    next = depth + 1 ∧ next ≤ limit := by
  unfold depthPushed at h
  split at h
  · cases h
  · cases h
    exact ⟨rfl, by omega⟩

-- What an instruction does to the depth, whether it pushes a value, combines two or neither.
structure Accounted (limit depth next pushed combined : Nat) : Prop where
  balance : next + combined = depth + pushed
  filled : 1 ≤ next
  room : depth ≤ limit → next ≤ limit

theorem depthStep_ok (h : depthStep limit depth i = .ok next) :
    Accounted limit depth next (if i.pushes then 1 else 0) (if i.combines then 1 else 0) := by
  cases i with
  | noop => cases h
  | literal | push =>
    obtain ⟨rfl, fits⟩ := depthPushed_ok h
    exact ⟨rfl, by omega, fun _ => fits⟩
  | neg | apply =>
    simp only [depthStep] at h
    split at h
    · cases h
    · cases h
      exact ⟨rfl, by omega, id⟩
  | dup =>
    simp only [depthStep] at h
    split at h
    · cases h
    · obtain ⟨rfl, fits⟩ := depthPushed_ok h
      exact ⟨rfl, by omega, fun _ => fits⟩
  | binary op =>
    simp only [depthStep] at h
    split at h
    · cases h
    · obtain ⟨rfl, fits⟩ := depthPushed_ok h
      refine ⟨?_, by omega, fun _ => fits⟩
      simp only [Instruction.combines, Instruction.pushes, if_true, Bool.false_eq_true, if_false]
      omega

theorem depthRun_ok (h : depthRun limit depth instructions = .ok next) :
    next + instructions.countP (·.combines) = depth + instructions.countP (·.pushes) ∧
      (instructions ≠ [] → 1 ≤ next) ∧ (depth ≤ limit → next ≤ limit) := by
  induction instructions generalizing depth with
  | nil =>
    cases h
    exact ⟨rfl, (absurd rfl ·), id⟩
  | cons i rest ih =>
    unfold depthRun at h
    cases stepped : depthStep limit depth i with
    | error e =>
      rw [stepped] at h
      cases h
    | ok between =>
      rw [stepped] at h
      obtain ⟨balance, filled, room⟩ := depthStep_ok stepped
      obtain ⟨later, filled', room'⟩ := ih h
      refine ⟨?_, fun _ => ?_, fun fits => room' (room fits)⟩
      · rw [List.countP_cons, List.countP_cons]
        omega
      · cases rest with
        | nil =>
          cases h
          exact filled
        | cons j rest => exact filled' (List.cons_ne_nil j rest)

end Depth

section Run

variable {scope : Scope} {limit : Nat} {s t : Stack Float} {e : Error}
  {instructions front back : List Instruction}

theorem depthRun_of_run (h : run scope s instructions = .ok t) :
    t.limit = s.limit ∧ depthRun s.limit s.size instructions = .ok t.size := by
  have followed := run_follows scope s instructions
  rw [h] at followed
  generalize depthRun s.limit s.size instructions = depth at followed ⊢
  cases followed with
  | ok _ same => exact ⟨same, rfl⟩

-- An operator takes two values before it adds one.
theorem binary_within (fits : s.size ≤ s.limit) {op : BinaryOp}
    (failed : step scope s (.binary op) = .error e) : e.code ≠ .overflow := by
  have followed := step_follows scope s (.binary op)
  rw [failed] at followed
  generalize found : depthStep s.limit s.size (.binary op) = depth at followed
  cases followed with
  | undefined _ _ pointwise =>
    intro overflow
    simp [Error.isPointwise, overflow] at pointwise
  | failed =>
    simp only [depthStep] at found
    split at found
    · cases found
      decide
    · unfold depthPushed at found
      split at found
      · omega
      · cases found

theorem run_ne_noResult : run scope s instructions ≠ .error .noResult := by
  intro h
  have followed := run_follows scope s instructions
  rw [h] at followed
  generalize found : depthRun s.limit s.size instructions = depth at followed
  cases followed with
  | undefined _ _ pointwise => cases pointwise
  | failed =>
    have listed := depthRun_error found
    have other : Error.noResult ∉ stepErrors := by decide
    exact other listed

def executeFrom (scope : Scope) (s : Stack Float) (instructions : List Instruction) :
    Except Error Float :=
  (run scope s instructions).bind fun t =>
    match t.top? with
    | some v => .ok v
    | none => .error .noResult

theorem execute_eq_executeFrom (limit : Nat) (scope : Scope) (instructions : List Instruction) :
    execute limit scope instructions = executeFrom scope (.empty limit) instructions := by
  unfold execute executeFrom
  cases run scope (.empty limit) instructions <;> rfl

theorem executeFrom_append :
    executeFrom scope s (front ++ back) =
      (run scope s front).bind (executeFrom scope · back) := by
  unfold executeFrom
  rw [run_append]
  cases run scope s front <;> rfl

theorem exists_top (given : instructions ≠ []) (h : run scope s instructions = .ok t) :
    ∃ v, t.top? = some v := by
  have filled := (depthRun_ok (depthRun_of_run h).2).2.1 given
  obtain ⟨_, _ | ⟨v, rest⟩⟩ := t
  · cases filled
  · exact ⟨v, rfl⟩

-- There is a result as soon as the run itself does not fail.
theorem execute_cases (given : instructions ≠ []) (limit : Nat) (scope : Scope) :
    (∃ e, run scope (.empty limit) instructions = .error e ∧
      execute limit scope instructions = .error e) ∨
    ∃ s v, run scope (.empty limit) instructions = .ok s ∧ s.top? = some v ∧
      execute limit scope instructions = .ok v := by
  rw [execute_eq_executeFrom]
  unfold executeFrom
  cases result : run scope (.empty limit) instructions with
  | error e => exact .inl ⟨e, rfl, rfl⟩
  | ok s =>
    obtain ⟨v, top⟩ := exists_top given result
    refine .inr ⟨s, v, rfl, top, ?_⟩
    simp only [Except.bind, top]

theorem execute_eq_noResult_iff :
    execute limit scope instructions = .error .noResult ↔ instructions = [] := by
  constructor
  · intro h
    by_cases given : instructions = []
    · exact given
    · rcases execute_cases given limit scope with ⟨e, failed, same⟩ | ⟨s, v, -, -, same⟩
      · rw [same] at h
        cases h
        exact absurd failed run_ne_noResult
      · rw [same] at h
        cases h
  · rintro rfl
    rfl

end Run

theorem depth_accounted (limit : Nat) (scope : Scope) (instructions : List Instruction) :
    (∀ front back s, instructions = front ++ back → run scope (.empty limit) front = .ok s →
      s.size + front.countP (·.combines) = front.countP (·.pushes) ∧
      (front ≠ [] → 1 ≤ s.size) ∧ s.size ≤ limit ∧
      ∀ op rest, back = .binary op :: rest → ∀ e, step scope s (.binary op) = .error e →
        e.code ≠ .overflow) ∧
    (execute limit scope instructions = .error .noResult ↔ instructions = []) ∧
    (instructions ≠ [] → ∀ more,
      (∀ e, execute limit scope instructions = .error e →
        execute limit scope (instructions ++ more) = .error e) ∧
      ∀ v, execute limit scope instructions = .ok v →
        ∃ s, run scope (.empty limit) instructions = .ok s ∧ s.top? = some v ∧
          execute limit scope (instructions ++ more) = executeFrom scope s more) := by
  refine ⟨?_, execute_eq_noResult_iff, ?_⟩
  · intro front back s _ reached
    obtain ⟨same, measured⟩ := depthRun_of_run reached
    obtain ⟨balance, filled, room⟩ := depthRun_ok measured
    have fits : s.size ≤ limit := room (Nat.zero_le limit)
    refine ⟨balance.trans (Nat.zero_add _), filled, fits, ?_⟩
    intro op rest _ e failed
    exact binary_within (Nat.le_trans fits (Nat.le_of_eq same.symm)) failed
  · intro given more
    have going : execute limit scope (instructions ++ more) =
        (run scope (.empty limit) instructions).bind (executeFrom scope · more) := by
      rw [execute_eq_executeFrom, executeFrom_append]
    rcases execute_cases given limit scope with ⟨f, failed, same⟩ | ⟨s, w, left, top, same⟩
    · rw [same, going, failed]
      exact ⟨fun e h => h, nofun⟩
    · rw [same, going, left]
      refine ⟨nofun, fun v h => ?_⟩
      cases h
      exact ⟨s, rfl, top, rfl⟩

-- `3 dup +`, for which a stack of two is just enough.
def doubled : List Instruction := [.literal 3, .dup, .binary .add]

theorem doubled_starves_product :
    execute 2 ⟨Vars.new, 0⟩ doubled = .ok (3 + 3) ∧
      (∃ s : Stack Float, s.top? = some (3 + 3) ∧ execute 2 ⟨Vars.new, 0⟩ (doubled ++ [.neg]) =
        executeFrom ⟨Vars.new, 0⟩ s [.neg]) ∧
      execute 2 ⟨Vars.new, 0⟩ (doubled ++ [.binary .mul]) = .error .underflow ∧
      execute 2 ⟨Vars.new, 0⟩ (doubled ++ [.binary .mul] ++ [.literal 1]) = .error .underflow := by
  have value : execute 2 ⟨Vars.new, 0⟩ doubled = .ok (3 + 3) := rfl
  have starved : execute 2 ⟨Vars.new, 0⟩ (doubled ++ [.binary .mul]) = .error .underflow := rfl
  obtain ⟨-, -, ok⟩ := depth_accounted 2 ⟨Vars.new, 0⟩ doubled
  obtain ⟨-, -, failed⟩ := depth_accounted 2 ⟨Vars.new, 0⟩ (doubled ++ [.binary .mul])
  obtain ⟨s, -, top, same⟩ := (ok nofun [.neg]).2 _ value
  exact ⟨value, ⟨s, top, same⟩, starved, (failed nofun [.literal 1]).1 _ starved⟩

end PolishPlotter.Machine
