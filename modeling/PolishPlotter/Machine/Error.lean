set_option autoImplicit false

namespace PolishPlotter.Machine

inductive Code
  -- Fewer operands than an operation needs, or no result.
  | underflow
  -- Division or modulo by zero, or a function outside its domain.
  | undefined
  -- More values than the stack may hold.
  | overflow
  -- An empty key among the instructions.
  | internal
  deriving DecidableEq, Repr

def Code.text : Code → String
  | .underflow => "STACK UNDERFLOW"
  | .undefined => "UNDEFINED"
  | .overflow => "STACK OVERFLOW"
  | .internal => "INTERNAL ERROR"

structure Error where
  code : Code
  detail : String
  deriving DecidableEq, Repr

namespace Error

def plain (code : Code) : Error := ⟨code, ""⟩

def underflow : Error := plain .underflow
def overflow : Error := plain .overflow
def noResult : Error := ⟨.underflow, "NO RESULT"⟩
def divisionByZero : Error := ⟨.undefined, "DIVISION BY ZERO"⟩
def moduloByZero : Error := ⟨.undefined, "MODULO BY ZERO"⟩
def outsideDomain : Error := ⟨.undefined, "OUTSIDE FUNCTION DOMAIN"⟩
def noopReached : Error := ⟨.internal, "NOOP IN SEQUENCE"⟩
def noopRefused : Error := ⟨.internal, "NOOP CANNOT BE STORED"⟩

/-- Pointwise errors depend on the value of `x` and leave a gap in a curve. All others are
structural and arise at every column. -/
def isPointwise (e : Error) : Bool := e.code = .undefined

def message (e : Error) : String :=
  if e.detail = "" then e.code.text else e.code.text ++ "; " ++ e.detail

def inspect (e : Error) : String := "Error \x7b " ++ e.message ++ " \x7d"

end Error

end PolishPlotter.Machine
