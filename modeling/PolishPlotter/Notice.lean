set_option autoImplicit false

namespace PolishPlotter

inductive Level
  | error | warn | info | debug | trace
  deriving DecidableEq, Repr

def Level.name : Level → String
  | .error => "ERROR"
  | .warn => "WARN"
  | .info => "INFO"
  | .debug => "DEBUG"
  | .trace => "TRACE"

def Level.severity : Level → Nat
  | .error => 0
  | .warn => 1
  | .info => 2
  | .debug => 3
  | .trace => 4

structure Notice where
  level : Level
  text : String
  deriving DecidableEq, Repr

def Notice.line (n : Notice) : String := n.level.name ++ " " ++ n.text

def Notice.upTo (level : Level) (notices : List Notice) : List Notice :=
  notices.filter (·.level.severity ≤ level.severity)

end PolishPlotter
