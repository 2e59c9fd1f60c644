import PolishPlotter.Machine.Instruction

set_option autoImplicit false

namespace PolishPlotter.Machine

structure Stack (α : Type) where
  limit : Nat
  items : List α

namespace Stack

variable {α : Type}

def empty (limit : Nat) : Stack α := ⟨limit, []⟩

def size (s : Stack α) : Nat := s.items.length

def top? (s : Stack α) : Option α := s.items.head?

-- The value is stored even when it is one too many.
def store (s : Stack α) (v : α) : Stack α := { s with items := v :: s.items }

def checked (s : Stack α) : Except Error (Stack α) :=
  if s.limit < s.size then .error .overflow else .ok s

def push (s : Stack α) (v : α) : Except Error (Stack α) := (s.store v).checked

def pop (s : Stack α) : Except Error (α × Stack α) :=
  match s.items with
  | [] => .error .underflow
  | v :: rest => .ok (v, { s with items := rest })

def popTwo (s : Stack α) : Except Error (α × α × Stack α) :=
  match s.items with
  | x :: y :: rest => .ok (x, y, { s with items := rest })
  | _ => .error .underflow

def replaceTop (s : Stack α) (v : α) : Except Error (Stack α) :=
  match s.items with
  | [] => .error .underflow
  | _ :: rest => .ok { s with items := v :: rest }

@[simp] theorem size_store (s : Stack α) (v : α) : (s.store v).size = s.size + 1 := rfl

theorem push_eq_error_iff (s : Stack α) (v : α) (e : Error) :
    s.push v = .error e ↔ s.limit ≤ s.size ∧ e = .overflow := by
  have hl : (s.store v).limit = s.limit := rfl
  simp only [push, checked, size_store, hl]
  split
  · next h => exact ⟨fun he => ⟨by omega, (Except.error.inj he).symm⟩, fun ⟨_, he⟩ => by rw [he]⟩
  · next h => exact ⟨(nomatch ·), fun ⟨hs, _⟩ => absurd hs (by omega)⟩

def inspect (s : Stack Float) : String :=
  "[" ++ ", ".intercalate (s.items.reverse.map Decimal.inspect) ++ "]"

end Stack

def defaultStackLimit : Nat := 256

def step (scope : Scope) (s : Stack Float) : Instruction → Except Error (Stack Float)
  | .literal v => s.push v
  | .push var => s.push (scope.fetch var)
  | .binary op => do
    let (x, y, rest) ← s.popTwo
    rest.push (← op.eval x y)
  | .neg => do
    let (v, _) ← s.pop
    s.replaceTop (-v)
  | .apply f => do
    let (v, _) ← s.pop
    s.replaceTop (← f.eval v)
  | .dup => do
    let (v, _) ← s.pop
    s.push v
  | .noop => .error .noopReached

-- The first instruction that fails ends the run.
def run (scope : Scope) : Stack Float → List Instruction → Except Error (Stack Float)
  | s, [] => .ok s
  | s, i :: rest =>
    match step scope s i with
    | .ok s => run scope s rest
    | .error e => .error e

def execute (limit : Nat) (scope : Scope) (instructions : List Instruction) : Except Error Float :=
  match run scope (.empty limit) instructions with
  | .error e => .error e
  | .ok s =>
    match s.top? with
    | some v => .ok v
    | none => .error .noResult

end PolishPlotter.Machine
