import PolishPlotter.Machine.Run
import PolishPlotter.Screen.Viewport

set_option autoImplicit false

namespace PolishPlotter.Screen

open Machine

structure Sampler where
  width : Nat
  deriving DecidableEq, Repr

-- What evaluating one column comes to.
inductive Column
  | drawn (point : Point Float)
  | offScale
  | notFinite (value : Float)
  | undefined (error : Error)
  | abandoned (error : Error)

namespace Column

def ofResult (view : Viewport Float) (x : Float) : Except Error Float → Column
  | .ok y =>
    if y.isFinite then
      let point := view.toScreen ⟨x, y⟩
      if point.isFinite then .drawn point else .offScale
    else .notFinite y
  | .error e => if e.isPointwise then .undefined e else .abandoned e

def point? : Column → Option (Point Float)
  | .drawn p => some p
  | _ => none

def error? : Column → Option Error
  | .abandoned e => some e
  | _ => none

def stops (column : Column) : Bool := column.error?.isSome

def notice? (column : Column) (index : Nat) : Option Notice :=
  match column with
  | .drawn _ | .offScale => none
  | .notFinite v =>
    some ⟨.trace, s!"column {index}: non-finite result " ++ Decimal.plain v⟩
  | .undefined e => some ⟨.trace, s!"column {index}: " ++ e.message⟩
  | .abandoned e => some ⟨.debug, s!"sampling abandoned at column {index}: " ++ e.message⟩

end Column

namespace Sampler

def screen : Sampler := ⟨screenWidth⟩

def columnToX {α : Type} [Scalar α] (s : Sampler) (view : Viewport α) (column : Nat) : α :=
  if s.width = screenWidth then view.columnToX column
  else if 1 < s.width then
    interpolate (Scalar.ofNat column) (Scalar.ofNat 0) (Scalar.ofNat (s.width - 1))
      view.xmin view.xmax
  else view.xmin

def column (s : Sampler) (limit : Nat) (instructions : List Instruction) (view : Viewport Float)
    (vars : Vars) (i : Nat) : Column :=
  let x := s.columnToX view i
  .ofResult view x (execute limit ⟨vars, x⟩ instructions)

-- A structural error ends the scan at its column.
def scanFrom (column : Nat → Column) : Nat → Nat → List Column
  | _, 0 => []
  | i, n + 1 =>
    match column i with
    | .abandoned e => [.abandoned e]
    | c => c :: scanFrom column (i + 1) n

def scan (s : Sampler) (limit : Nat) (instructions : List Instruction) (view : Viewport Float)
    (vars : Vars) : List Column :=
  scanFrom (s.column limit instructions view vars) 0 s.width

end Sampler

def notices (columns : List Column) : List Notice :=
  columns.zipIdx.filterMap fun (c, i) => c.notice? i

structure Curve where
  runs : List (List (Point Float))
  error : Option Error

/-- A pen that follows the columns from left to right. It keeps the runs drawn so far, the newest
first and each with its newest point first; the point of the column before; and whether the newest
run ends there. -/
structure Pen where
  runs : List (List (Point Float))
  last : Option (Point Float)
  joined : Bool

namespace Pen

def lifted : Pen := ⟨[], none, false⟩

def startRun (pen : Pen) (source target : Point Float) : Pen :=
  { pen with runs := [target, source] :: pen.runs }

def continueRun (pen : Pen) (target : Point Float) : Pen :=
  match pen.runs with
  | run :: rest => { pen with runs := (target :: run) :: rest }
  -- There is always a run to continue.
  | [] => pen

def move (pen : Pen) (point? : Option (Point Float)) : Pen :=
  match pen.last, point? with
  | some source, some target =>
    let drawn := if pen.joined then pen.continueRun target else pen.startRun source target
    { drawn with last := point?, joined := true }
  | _, _ => { pen with last := point?, joined := false }

-- The pen stays where it is when the scan is abandoned.
def next (pen : Pen) (column : Column) : Pen :=
  if column.stops then pen else pen.move column.point?

def after (columns : List Column) : Pen := columns.foldl next lifted

def drawing (pen : Pen) : List (List (Point Float)) := (pen.runs.map List.reverse).reverse

end Pen

namespace Curve

def ofColumns (columns : List Column) : Curve :=
  ⟨(Pen.after columns).drawing, columns.findSome? Column.error?⟩

def segments (curve : Curve) : List (Point Float × Point Float) :=
  curve.runs.flatMap fun run => run.zip run.tail

def isEmpty (curve : Curve) : Bool := curve.runs.isEmpty

end Curve

def Sampler.sample (s : Sampler) (limit : Nat) (instructions : List Instruction)
    (view : Viewport Float) (vars : Vars) : Curve :=
  .ofColumns (s.scan limit instructions view vars)

end PolishPlotter.Screen
