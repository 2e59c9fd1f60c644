import PolishPlotter.Binary64.Magnitude

set_option autoImplicit false

namespace PolishPlotter.Machine

structure Var where
  index : Nat
  name : String
  deriving DecidableEq, Repr

def Var.isFree (var : Var) : Bool := var.index = 0

-- The names and, place by place, the values. Places are only ever added, so a handle stays good.
structure Vars where
  names : List String
  values : List Float
  aligned : names.length = values.length

namespace Vars

def new : Vars := ⟨["x"], [0], rfl⟩

def free : Var := ⟨0, "x"⟩

def size (vars : Vars) : Nat := vars.values.length

def lookup? (vars : Vars) (name : String) : Option Var :=
  (vars.names.findIdx? (· = name)).map (⟨·, name⟩)

def append (vars : Vars) (name : String) : Vars where
  names := vars.names ++ [name]
  values := vars.values ++ [0]
  aligned := by rw [List.length_append, List.length_append, vars.aligned]; rfl

def define (vars : Vars) (name : String) : Var × Vars :=
  match vars.lookup? name with
  | some var => (var, vars)
  | none => (⟨vars.names.length, name⟩, vars.append name)

-- A handle from elsewhere that points at no value fetches NaN.
def fetch (vars : Vars) (var : Var) : Float :=
  match vars.values[var.index]? with
  | some value => value
  | none => Binary64.nan

-- A handle that points at no value stores nothing.
def store (vars : Vars) (var : Var) (value : Float) : Vars where
  names := vars.names
  values := vars.values.set var.index value
  aligned := by rw [List.length_set, vars.aligned]

@[simp] theorem names_store (vars : Vars) (var : Var) (value : Float) :
    (vars.store var value).names = vars.names := rfl

@[simp] theorem size_store (vars : Vars) (var : Var) (value : Float) :
    (vars.store var value).size = vars.size :=
  List.length_set

@[simp] theorem lookup?_store (vars : Vars) (var : Var) (value : Float) (name : String) :
    (vars.store var value).lookup? name = vars.lookup? name := rfl

end Vars

structure Scope where
  vars : Vars
  x : Float

def Scope.fetch (scope : Scope) (var : Var) : Float :=
  if var.isFree then scope.x else scope.vars.fetch var

end PolishPlotter.Machine
