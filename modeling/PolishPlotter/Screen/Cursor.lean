import PolishPlotter.Binary64.Integral
import PolishPlotter.Machine.Run
import PolishPlotter.Screen.Viewport

set_option autoImplicit false

namespace PolishPlotter.Screen

open Machine

structure Cursor where
  x : Float
  y : Float

namespace Cursor

def center : Cursor := ⟨.ofNat (screenWidth / 2), .ofNat (screenHeight / 2)⟩

-- A move to NaN ends at the edge.
def clamp (v last : Float) : Float := Binary64.smaller (Binary64.larger v 0) last

def nudge (c : Cursor) (dx dy : Float) : Cursor :=
  ⟨clamp (c.x + dx) lastColumn, clamp (c.y + dy) lastRow⟩

def placed (x y : Float) : Cursor := nudge ⟨0, 0⟩ x y

def position (c : Cursor) : Point Float := ⟨c.x, c.y⟩

end Cursor

-- A traced position; without `y` when the equation has no finite value at `x`.
structure Trace where
  x : Float
  y : Option Float

def traceUnit (view : Viewport Float) : Float :=
  Binary64.pow 10 (Binary64.toInt32 (Binary64.ceil (view.xSpan / .ofNat screenWidth).log10))

def snap (view : Viewport Float) (x : Float) : Float :=
  let unit := traceUnit view
  if unit.isFinite && unit > 0 then Binary64.round (x / unit) * unit else x

def traceAt (limit : Nat) (instructions : List Instruction) (vars : Vars) (x : Float) : Trace where
  x := x
  y :=
    match execute limit ⟨vars, x⟩ instructions with
    | .ok y => if y.isFinite then some y else none
    | .error _ => none

def trace (limit : Nat) (instructions : List Instruction) (view : Viewport Float) (vars : Vars)
    (cursor : Cursor) (snapped : Bool) : Trace :=
  let x := (view.toDomain cursor.position).x
  traceAt limit instructions vars (if snapped then snap view x else x)

end PolishPlotter.Screen
