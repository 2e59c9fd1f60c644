import PolishPlotter.Binary64.Integral
import PolishPlotter.Screen.Curve
import PolishPlotter.Screen.Paint

set_option autoImplicit false

namespace PolishPlotter.Screen

structure Mark where
  char : Char
  color : Color
  deriving DecidableEq, Repr

structure Canvas where
  columns : Nat
  rows : Nat
  cells : Array (Option Mark)

namespace Canvas

def blank (columns rows : Nat) : Canvas :=
  let columns := max columns 1
  let rows := max rows 1
  ⟨columns, rows, .replicate (columns * rows) none⟩

def axisColor : Color := ⟨0x80, 0xFF, 0xFF⟩

-- The cell of a coordinate on a side of the screen that `count` cells share.
@[inline] def cellIndex? (v size : Float) (count : Nat) : Option Nat :=
  let total := count.toUInt64.toFloat
  let cell := Binary64.floor (v / size * total)
  if 0 ≤ cell ∧ cell < total then some cell.toUInt64.toNat else none

@[inline] def cellOf (c : Canvas) (x y : Float) : Option (Nat × Nat) :=
  match cellIndex? x screenWidth.toUInt64.toFloat c.columns with
  | none => none
  | some col =>
    match cellIndex? y screenHeight.toUInt64.toFloat c.rows with
    | none => none
    | some row => some (col, row)

@[inline] def mark (c : Canvas) (x y : Float) (cell : Option Mark) : Canvas :=
  match c.cellOf x y with
  | some (col, row) => { c with cells := c.cells.setIfInBounds (row * c.columns + col) cell }
  | none => c

@[simp] theorem size_cells_mark (c : Canvas) (x y : Float) (cell : Option Mark) :
    (c.mark x y cell).cells.size = c.cells.size := by
  simp only [mark]
  split <;> simp

def get? (c : Canvas) (col row : Nat) : Option Char :=
  if col < c.columns ∧ row < c.rows then
    match c.cells[row * c.columns + col]? with
    | some (some m) => some m.char
    | _ => none
  else none

def axes (c : Canvas) (view : Viewport Float) : Canvas :=
  let (col, row) := view.axes Point.origin
  let c := match row with
    | some y =>
      (List.range screenWidth).foldl (fun c x => c.mark (.ofNat x) y (some ⟨'─', axisColor⟩)) c
    | none => c
  let c := match col with
    | some x =>
      (List.range screenHeight).foldl (fun c y => c.mark x (.ofNat y) (some ⟨'│', axisColor⟩)) c
    | none => c
  match col, row with
  | some x, some y => c.mark x y (some ⟨'┼', axisColor⟩)
  | _, _ => c

-- How many steps a segment is drawn in: one per pixel of its longer side.
def steps? (source target : Point Float) : Option Nat :=
  let length := Binary64.larger (target.x - source.x).abs (target.y - source.y).abs
  let steps := Binary64.ceil length
  if steps.isFinite then
    some (max (min steps.toUInt64.toNat (screenWidth * screenHeight)) 1)
  else none

/-- Marks the points `i / steps`, `(i + 1) / steps`, … of the way from `(x, y)` by `(dx, dy)`. -/
def plot (c : Canvas) (x y dx dy steps : Float) (cell : Option Mark) : Nat → Nat → Canvas
  | _, 0 => c
  | i, n + 1 =>
    let t := i.toUInt64.toFloat / steps
    plot (c.mark (x + dx * t) (y + dy * t) cell) x y dx dy steps cell (i + 1) n

-- A segment whose length is not finite is not drawn.
def line (c : Canvas) (source target : Point Float) (color : Color) : Canvas :=
  match steps? source target with
  | some steps =>
    c.plot source.x source.y (target.x - source.x) (target.y - source.y) steps.toUInt64.toFloat
      (some ⟨'•', color⟩) 0 (steps + 1)
  | none => c

def curve (c : Canvas) (curve : Curve) (color : Color) : Canvas :=
  curve.segments.foldl (fun c (source, target) => c.line source target color) c

def cellText (paint : Paint) : Option Mark → String
  | some m => paint.colored m.color (String.singleton m.char)
  | none => " "

def rowText (paint : Paint) (row : List (Option Mark)) : String :=
  .join (row.map (cellText paint)) ++ "\n"

-- The consecutive pieces of `size` elements, with what is left as the last one.
def chunks {α : Type} (size : Nat) : List α → List (List α)
  | [] => []
  | first :: rest => (first :: rest.take (size - 1)) :: chunks size (rest.drop (size - 1))
termination_by elements => elements.length
decreasing_by simp only [List.length_drop, List.length_cons]; omega

def render (c : Canvas) (paint : Paint) : String :=
  .join ((chunks c.columns c.cells.toList).map (rowText paint))

end Canvas

end PolishPlotter.Screen
