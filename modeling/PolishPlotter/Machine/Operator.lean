import PolishPlotter.Binary64.Integral
import PolishPlotter.Machine.Error

set_option autoImplicit false

namespace PolishPlotter.Machine

inductive BinaryOp
  | add | sub | mul | div | mod | pow
  deriving DecidableEq, Repr

namespace BinaryOp

def all : List BinaryOp := [add, sub, mul, div, mod, pow]

def label : BinaryOp → String
  | .add => "+"
  | .sub => "-"
  | .mul => "*"
  | .div => "/"
  | .mod => "mod"
  | .pow => "^"

def labelled? (label : String) : Option BinaryOp := all.find? (·.label = label)

/-- `x` is the operand on top of the stack, `y` the one below it. -/
def eval (op : BinaryOp) (x y : Float) : Except Error Float :=
  match op with
  | .add => .ok (x + y)
  | .sub => .ok (x - y)
  | .mul => .ok (x * y)
  | .div => if y == 0 then .error .divisionByZero else .ok (x / y)
  | .mod => if y == 0 then .error .moduloByZero else .ok (Binary64.remainder x y)
  | .pow => .ok (x.pow y)

end BinaryOp

inductive Domain
  | any | nonNegative | positive
  deriving DecidableEq, Repr

namespace Domain

/-- NaN is in every domain and flows through the function. -/
def admits : Domain → Float → Bool
  | .any, _ => true
  | .nonNegative, v => !(v < 0)
  | .positive, v => !(v ≤ 0)

def name : Domain → String
  | .any => "Any"
  | .nonNegative => "NonNegative"
  | .positive => "Positive"

def named? (name : String) : Option Domain :=
  [any, nonNegative, positive].find? (·.name = name)

end Domain

structure Function where
  name : String
  call : Float → Float
  domain : Domain

namespace Function

def builtins : List Function :=
  [⟨"sin", .sin, .any⟩, ⟨"cos", .cos, .any⟩, ⟨"tan", .tan, .any⟩,
    ⟨"asin", .asin, .any⟩, ⟨"acos", .acos, .any⟩, ⟨"atan", .atan, .any⟩,
    ⟨"sqrt", .sqrt, .nonNegative⟩, ⟨"exp", .exp, .any⟩, ⟨"ln", .log, .positive⟩,
    ⟨"log", .log10, .positive⟩, ⟨"abs", .abs, .any⟩]

def names : List String :=
  ["sin", "cos", "tan", "asin", "acos", "atan", "sqrt", "exp", "ln", "log", "abs"]

theorem names_eq : names = builtins.map (·.name) := rfl

def lookup? (name : String) : Option Function := builtins.find? (·.name = name)

instance : BEq Function where
  beq f g := f.name = g.name && f.domain = g.domain

def eval (f : Function) (v : Float) : Except Error Float :=
  if f.domain.admits v then .ok (f.call v) else .error .outsideDomain

def inspect (f : Function) : String := "Function(" ++ f.name ++ ", " ++ f.domain.name ++ ")"

end Function

end PolishPlotter.Machine
