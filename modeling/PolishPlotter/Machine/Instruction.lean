import PolishPlotter.Decimal.Layout
import PolishPlotter.Machine.Operator
import PolishPlotter.Machine.Scope

set_option autoImplicit false

namespace PolishPlotter.Machine

inductive Instruction
  | literal (value : Float)
  | push (var : Var)
  | binary (op : BinaryOp)
  | neg
  | apply (f : Function)
  | dup
  -- An empty key, which no equation holds.
  | noop

namespace Instruction

def isNoop : Instruction → Bool
  | .noop => true
  | _ => false

def text : Instruction → String
  | .literal v => Decimal.plain v
  | .push var => var.name
  | .binary op => op.label
  | .neg => "±"
  | .apply f => f.name
  | .dup => "dup"
  | .noop => "???"

/-- Literals compare as numbers: the zeros are equal, and NaN equals nothing. -/
instance : BEq Instruction where
  beq
    | .literal v, .literal w => v == w
    | .push var, .push other => var = other
    | .binary op, .binary other => op = other
    | .neg, .neg => true
    | .apply f, .apply g => f == g
    | .dup, .dup => true
    | .noop, .noop => true
    | _, _ => false

end Instruction

def transcript (instructions : List Instruction) : String :=
  " ".intercalate (instructions.map (·.text))

end PolishPlotter.Machine
