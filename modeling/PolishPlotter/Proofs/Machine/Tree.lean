import PolishPlotter.Proofs.Machine.Step

set_option autoImplicit false

namespace PolishPlotter.Machine

-- What an operator computes, also where it is undefined.
def BinaryOp.compute (op : BinaryOp) (x y : Float) : Float :=
  match op with
  | .add => x + y
  | .sub => x - y
  | .mul => x * y
  | .div => x / y
  | .mod => Binary64.remainder x y
  | .pow => x.pow y

inductive Tree
  | literal (value : Float)
  | fetch (var : Var)
  | neg (t : Tree)
  | apply (f : Function) (t : Tree)
  | binary (op : BinaryOp) (x y : Tree)

namespace Tree

def value (scope : Scope) : Tree → Float
  | .literal v => v
  | .fetch var => scope.fetch var
  | .neg t => -t.value scope
  | .apply f t => f.call (t.value scope)
  | .binary op x y => op.compute (x.value scope) (y.value scope)

-- The fault of the root alone, not of the trees beneath it.
def fault? (scope : Scope) : Tree → Option Error
  | .binary .div _ y => if y.value scope == 0 then some .divisionByZero else none
  | .binary .mod _ y => if y.value scope == 0 then some .moduloByZero else none
  | .apply f t => if f.domain.admits (t.value scope) then none else some .outsideDomain
  | _ => none

def outcome (scope : Scope) (t : Tree) : Except Error Float :=
  match t.fault? scope with
  | some e => .error e
  | none => .ok (t.value scope)

variable (scope : Scope)

theorem outcome_binary (op : BinaryOp) (x y : Tree) :
    (Tree.binary op x y).outcome scope = op.eval (x.value scope) (y.value scope) := by
  cases op with
  | add | sub | mul | pow => rfl
  | div | mod =>
    simp only [outcome, fault?, BinaryOp.eval]
    split <;> rename_i found
    · split at found
      · next zero => simp [zero, ← Option.some.inj found]
      · cases found
    · split at found
      · cases found
      · next nonzero => simp [nonzero, value, BinaryOp.compute]

theorem outcome_apply (f : Function) (t : Tree) :
    (Tree.apply f t).outcome scope = f.eval (t.value scope) := by
  simp only [outcome, fault?, Function.eval]
  by_cases admitted : f.domain.admits (t.value scope) = true <;> simp [admitted, value]

theorem code_of_fault? {t : Tree} {e : Error} (h : t.fault? scope = some e) :
    e.code = .undefined := by
  unfold fault? at h
  split at h
  all_goals
    first
    | split at h <;> cases h <;> rfl
    | cases h

end Tree

/-- The trees on a stack, top first, and all the nodes built on the way, in order. -/
structure Forest where
  trees : List Tree
  built : List Tree

namespace Forest

def empty : Forest := ⟨[], []⟩

def put (F : Forest) (node : Tree) (rest : List Tree) : Forest := ⟨node :: rest, F.built ++ [node]⟩

-- There is no next forest when there are too few trees.
def grow (F : Forest) : Instruction → Option Forest
  | .literal v => some { F with trees := .literal v :: F.trees }
  | .push var => some { F with trees := .fetch var :: F.trees }
  | .binary op =>
    match F.trees with
    | x :: y :: rest => some (F.put (.binary op x y) rest)
    | _ => none
  | .neg =>
    match F.trees with
    | t :: rest => some (F.put (.neg t) rest)
    | [] => none
  | .apply f =>
    match F.trees with
    | t :: rest => some (F.put (.apply f t) rest)
    | [] => none
  | .dup =>
    match F.trees with
    | t :: rest => some { F with trees := t :: t :: rest }
    | [] => none
  | .noop => none

def growAll : Forest → List Instruction → Option Forest
  | F, [] => some F
  | F, i :: rest => (F.grow i).bind (growAll · rest)

def fault? (scope : Scope) (F : Forest) : Option Error := F.built.findSome? (·.fault? scope)

def values (scope : Scope) (F : Forest) : List Float := F.trees.map (·.value scope)

/-- The stack that the trees stand for, unless a node built on the way is at fault. -/
def state (scope : Scope) (limit : Nat) (F : Forest) : Except Error (Stack Float) :=
  match F.fault? scope with
  | some e => .error e
  | none => .ok ⟨limit, F.values scope⟩

variable {scope : Scope} {limit : Nat} {F G : Forest} {i : Instruction}

theorem code_of_fault? {e : Error} (h : F.fault? scope = some e) : e.code = .undefined := by
  obtain ⟨t, -, found⟩ := List.exists_of_findSome?_eq_some h
  exact Tree.code_of_fault? scope found

theorem fault?_put (node : Tree) (rest : List Tree) :
    (F.put node rest).fault? scope = (F.fault? scope).or (node.fault? scope) := by
  simp only [fault?, put, List.findSome?_append, List.findSome?_cons, List.findSome?_nil]
  cases node.fault? scope <;> rfl

theorem state_put (node : Tree) (rest : List Tree) :
    (F.put node rest).state scope limit =
      (F.state scope limit).bind fun _ =>
        (node.outcome scope).map (⟨limit, · :: rest.map (·.value scope)⟩) := by
  simp only [state, fault?_put, Tree.outcome]
  cases F.fault? scope with
  | some e => rfl
  | none => cases node.fault? scope <;> rfl

theorem state_leaf (node : Tree) :
    (Forest.mk (node :: F.trees) F.built).state scope limit =
      (F.state scope limit).bind fun s => .ok { s with items := node.value scope :: s.items } := by
  simp only [state, fault?]
  cases F.built.findSome? (·.fault? scope) <;> rfl

theorem state_bind_congr {f g : Stack Float → Except Error (Stack Float)}
    (same : f ⟨limit, F.values scope⟩ = g ⟨limit, F.values scope⟩) :
    (F.state scope limit).bind f = (F.state scope limit).bind g := by
  unfold state
  cases F.fault? scope with
  | some e => rfl
  | none => exact same

theorem grow_length (h : F.grow i = some G) : G.trees.length ≤ F.trees.length + 1 := by
  obtain ⟨_ | ⟨t, _ | ⟨u, rest⟩⟩, built⟩ := F
  all_goals cases i <;> cases h <;> simp [put]

theorem grow_ne_nil (h : F.grow i = some G) : G.trees ≠ [] := by
  obtain ⟨_ | ⟨t, _ | ⟨u, rest⟩⟩, built⟩ := F
  all_goals cases i <;> cases h <;> simp [put]

theorem growAll_ne_nil {rest : List Instruction} (h : F.growAll (i :: rest) = some G) :
    G.trees ≠ [] := by
  induction rest generalizing F i with
  | nil =>
    obtain ⟨H, grown, same⟩ := Option.bind_eq_some_iff.mp h
    cases same
    exact grow_ne_nil grown
  | cons j rest ih =>
    obtain ⟨H, -, later⟩ := Option.bind_eq_some_iff.mp h
    exact ih later

-- Growing and standing for a stack commute.
theorem grow_state (room : F.trees.length < limit) (h : F.grow i = some G) :
    (F.state scope limit).bind (step scope · i) = G.state scope limit := by
  have fits : (F.values scope).length < limit := by simpa [values] using room
  cases i with
  | noop => cases h
  | literal v =>
    cases h
    rw [state_leaf]
    exact state_bind_congr (push_of_room limit v fits)
  | push var =>
    cases h
    rw [state_leaf]
    exact state_bind_congr (push_of_room limit _ fits)
  | dup =>
    obtain ⟨_ | ⟨t, rest⟩, built⟩ := F
    · cases h
    · cases h
      rw [state_leaf (F := ⟨t :: rest, built⟩)]
      exact state_bind_congr (push_of_room limit _ fits)
  | neg =>
    obtain ⟨_ | ⟨t, rest⟩, built⟩ := F
    · cases h
    · cases h
      rw [state_put]
      exact state_bind_congr rfl
  | apply f =>
    obtain ⟨_ | ⟨t, rest⟩, built⟩ := F
    · cases h
    · cases h
      rw [state_put, Tree.outcome_apply]
      exact state_bind_congr (step_apply_cons scope limit _ _ f)
  | binary op =>
    obtain ⟨_ | ⟨x, _ | ⟨y, rest⟩⟩, built⟩ := F
    · cases h
    · cases h
    · cases h
      have below : (rest.map (·.value scope)).length < limit := by
        simp only [List.length_cons, List.length_map] at room ⊢
        omega
      rw [state_put, Tree.outcome_binary]
      refine state_bind_congr ?_
      change step scope ⟨limit, x.value scope :: y.value scope :: _⟩ _ = _
      rw [step_binary_cons_cons]
      cases op.eval (x.value scope) (y.value scope) with
      | error e => rfl
      | ok v => exact push_of_room limit v below

theorem grow_none (proper : i.isNoop = false) (h : F.grow i = none) :
    (F.state scope limit).bind (step scope · i) = .error ((F.fault? scope).getD .underflow) := by
  obtain ⟨trees, built⟩ := F
  unfold state
  cases fault? scope ⟨trees, built⟩ with
  | some e => rfl
  | none =>
    cases i with
    | noop => cases proper
    | literal | push => cases h
    | neg | apply | dup =>
      cases trees with
      | nil => rfl
      | cons t rest => cases h
    | binary op =>
      obtain _ | ⟨x, _ | ⟨y, rest⟩⟩ := trees
      · rfl
      · rfl
      · cases h

theorem growAll_state {instructions : List Instruction}
    (room : F.trees.length + instructions.length ≤ limit)
    (h : F.growAll instructions = some G) :
    (F.state scope limit).bind (run scope · instructions) = G.state scope limit := by
  induction instructions generalizing F with
  | nil =>
    cases h
    cases G.state scope limit <;> rfl
  | cons i rest ih =>
    obtain ⟨H, grown, later⟩ := Option.bind_eq_some_iff.mp h
    have longer := grow_length grown
    rw [List.length_cons] at room
    rw [← ih (by omega) later, ← grow_state (by omega) grown]
    cases F.state scope limit with
    | error e => rfl
    | ok s => exact run_cons scope s i rest

theorem split_of_growAll_none {instructions : List Instruction}
    (h : F.growAll instructions = none) :
    ∃ front i back G, instructions = front ++ i :: back ∧ F.growAll front = some G ∧
      G.grow i = none := by
  induction instructions generalizing F with
  | nil => cases h
  | cons i rest ih =>
    rw [growAll] at h
    cases grown : F.grow i with
    | none => exact ⟨[], i, rest, F, rfl, rfl, grown⟩
    | some H =>
      rw [grown] at h
      obtain ⟨front, j, back, G, rfl, reached, stuck⟩ := ih h
      exact ⟨i :: front, j, back, G, rfl, by rw [growAll, grown]; exact reached, stuck⟩

end Forest

end PolishPlotter.Machine
