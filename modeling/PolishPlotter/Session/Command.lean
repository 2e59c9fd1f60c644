import PolishPlotter.Decimal.Reading
import PolishPlotter.Machine.Instruction

set_option autoImplicit false

namespace PolishPlotter

open Machine

inductive Refusal
  | unknownKey (word : String)
  | usage (text : String)
  | notANumber (word : String)
  | noSlider (name : String)
  | failed (error : Error)
  deriving DecidableEq, Repr

def Refusal.message : Refusal → String
  | .unknownKey word => "unknown key '" ++ word ++ "'"
  | .usage text => "usage: " ++ text
  | .notANumber word => "'" ++ word ++ "' is not a number"
  | .noSlider name => "no slider named '" ++ name ++ "'"
  | .failed e => e.message

namespace Command

def keywords : List String :=
  ["bs", "clear", "up", "down", "zoom+", "zoom-", "pan", "stick", "view", "set", "range", "min",
    "max", "reset", "trace", "snap", "cursor", "dup", "neg", "mod", "quit"]

-- The words that complete the start of one, unless there are none.
def complete (start : String) : Option (List String) :=
  match (Function.names ++ keywords).filter (·.startsWith start) with
  | [] => none
  | words => some words

def instruction? (vars : Vars) (word : String) : Option Instruction :=
  match BinaryOp.labelled? word with
  | some op => some (.binary op)
  | none =>
    if word = "dup" then some .dup
    else
      match Function.lookup? word with
      | some f => some (.apply f)
      | none => (vars.lookup? word).map .push

def unsigned : List Char → Bool × List Char
  | '-' :: digits => (true, digits)
  | digits => (false, digits)

-- Digits with at most one point, and at least one digit.
def isNumeral (digits : List Char) : Bool :=
  digits.any Char.isDigit && digits.all (fun c => c.isDigit || c = '.') && digits.count '.' ≤ 1

end Command

end PolishPlotter
