import PolishPlotter.Decimal.Reading
import PolishPlotter.Controls.Slots

set_option autoImplicit false

namespace PolishPlotter.Controls

open Machine

-- What a key press does to an equation.
inductive Edit
  | push (i : Instruction)
  | replaceLast (i : Instruction)
  | popLast
  | none

def Edit.apply (e : Equation) : Edit → Except Error Equation
  | .push i => e.push i
  | .replaceLast i => e.replaceLast i
  | .popLast => .ok e.pop
  | .none => .ok e

structure Keypad where
  text : List Char
  inProgress : Bool
  deriving DecidableEq, Repr

namespace Keypad

def backspace : Char := '\x08'
def sign : Char := '-'

def empty : Keypad := ⟨[], false⟩

def entry? (k : Keypad) : Option String := if k.inProgress then some (.ofList k.text) else none

-- A point alone counts as zero.
def value (text : List Char) : Float :=
  match text with
  | ['.'] | ['-', '.'] | ['-'] => 0
  | _ => (Decimal.readChars? text).getD 0

def literal (k : Keypad) : Instruction := .literal (value k.text)

def digit (k : Keypad) (c : Char) : Edit × Keypad :=
  let typed : Keypad := ⟨k.text ++ [c], true⟩
  (if k.inProgress then .replaceLast typed.literal else .push typed.literal, typed)

def toggleSign : List Char → List Char
  | '-' :: rest => rest
  | text => '-' :: text

def key (k : Keypad) (c : Char) : Edit × Keypad :=
  if c.isDigit then k.digit c
  else if c = '.' then
    if k.text.contains '.' then (.none, k) else k.digit c
  else if c = sign then
    if k.inProgress then
      let toggled : Keypad := { k with text := toggleSign k.text }
      (.replaceLast toggled.literal, toggled)
    else (.push .neg, k)
  else if c = backspace then
    if k.inProgress then
      let shorter : Keypad := { k with text := k.text.dropLast }
      if shorter.text = [] ∨ shorter.text = ['-'] then (.popLast, empty)
      else (.replaceLast shorter.literal, shorter)
    else (.popLast, k)
  else (.none, k)

def type (k : Keypad) (e : Equation) : List Char → Except Error (Keypad × Equation)
  | [] => .ok (k, e)
  | c :: rest =>
    let (edit, k) := k.key c
    match edit.apply e with
    | .ok e => type k e rest
    | .error error => .error error

end Keypad

end PolishPlotter.Controls
