import PolishPlotter.Decimal.Layout
import PolishPlotter.Notice
import PolishPlotter.Scalar

set_option autoImplicit false

namespace PolishPlotter.Screen

def screenWidth : Nat := 400
def screenHeight : Nat := 240

-- Rows of the screen are numbered downward, while `y` grows upward.
structure Point (α : Type) where
  x : α
  y : α

structure Viewport (α : Type) where
  xmin : α
  xmax : α
  ymin : α
  ymax : α

variable {α : Type} [Scalar α]

def Point.isFinite (p : Point α) : Bool := Scalar.isFinite p.x && Scalar.isFinite p.y

def Point.origin : Point α := ⟨Scalar.ofNat 0, Scalar.ofNat 0⟩

def interpolate (v min max toMin toMax : α) : α :=
  toMin + (v - min) * (toMax - toMin) / (max - min)

-- Neither axis may be zoomed down to a smaller span.
def minSpan : α := OfScientific.ofScientific 1 true 9

def lastColumn : α := Scalar.ofNat (screenWidth - 1)
def lastRow : α := Scalar.ofNat (screenHeight - 1)

inductive ZoomRefusal (α : Type)
  | factor (value : α)
  | degenerate

-- The viewport after a zoom, with the reason if the zoom has been refused.
structure ZoomResult (α : Type) where
  view : Viewport α
  refusal? : Option (ZoomRefusal α)

namespace Viewport

def default : Viewport Float := ⟨-5, 5, -3, 3⟩

def xSpan (v : Viewport α) : α := v.xmax - v.xmin
def ySpan (v : Viewport α) : α := v.ymax - v.ymin

def toScreen (v : Viewport α) (p : Point α) : Point α where
  x := interpolate p.x v.xmin v.xmax (Scalar.ofNat 0) lastColumn
  y := interpolate p.y v.ymin v.ymax lastRow (Scalar.ofNat 0)

def toDomain (v : Viewport α) (p : Point α) : Point α where
  x := interpolate p.x (Scalar.ofNat 0) lastColumn v.xmin v.xmax
  y := interpolate p.y lastRow (Scalar.ofNat 0) v.ymin v.ymax

def columnToX (v : Viewport α) (column : Nat) : α :=
  interpolate (Scalar.ofNat column) (Scalar.ofNat 0) lastColumn v.xmin v.xmax

def pan (v : Viewport α) (dx dy : α) : Viewport α :=
  ⟨v.xmin + dx, v.xmax + dx, v.ymin + dy, v.ymax + dy⟩

def panByStick (v : Viewport α) (dx dy rate : α) : Viewport α :=
  v.pan (rate * v.xSpan * dx) (rate * v.ySpan * dy)

def rescale (v : Viewport α) (scale : α) : ZoomResult α :=
  let two := Scalar.ofNat 2
  let cx := (v.xmin + v.xmax) / two
  let cy := (v.ymin + v.ymax) / two
  let hx := v.xSpan / two * scale
  let hy := v.ySpan / two * scale
  let spanOk (h : α) : Bool := Scalar.isFinite h && Scalar.le minSpan (two * h)
  if spanOk hx && spanOk hy then ⟨⟨cx - hx, cx + hx, cy - hy, cy + hy⟩, none⟩
  else ⟨v, some .degenerate⟩

def factorOk (factor : α) : Bool := Scalar.isFinite factor && Scalar.lt (Scalar.ofNat 0) factor

def zoomIn (v : Viewport α) (factor : α) : ZoomResult α :=
  if factorOk factor then v.rescale (Scalar.ofNat 1 / factor) else ⟨v, some (.factor factor)⟩

def zoomOut (v : Viewport α) (factor : α) : ZoomResult α :=
  if factorOk factor then v.rescale factor else ⟨v, some (.factor factor)⟩

section Refused

variable {v : Viewport α} {factor : α} {refusal : ZoomRefusal α}

theorem view_rescale_of_refused {scale : α} (refused : (v.rescale scale).refusal? = some refusal) :
    (v.rescale scale).view = v := by
  simp only [rescale] at refused ⊢
  split at refused
  · cases refused
  · next degenerate => rw [if_neg degenerate]

theorem view_zoomIn_of_refused (refused : (v.zoomIn factor).refusal? = some refusal) :
    (v.zoomIn factor).view = v := by
  unfold zoomIn at refused ⊢
  split at refused
  · next sound =>
    rw [if_pos sound]
    exact view_rescale_of_refused refused
  · next unsound => rw [if_neg unsound]

theorem view_zoomOut_of_refused (refused : (v.zoomOut factor).refusal? = some refusal) :
    (v.zoomOut factor).view = v := by
  unfold zoomOut at refused ⊢
  split at refused
  · next sound =>
    rw [if_pos sound]
    exact view_rescale_of_refused refused
  · next unsound => rw [if_neg unsound]

end Refused

-- The screen column and row of the lines through `origin`, each only when it is on the screen.
def axes (v : Viewport α) (origin : Point α) : Option α × Option α :=
  let center := v.toScreen origin
  let onScreen (c : α) (size : Nat) : Option α :=
    if Scalar.isFinite c && Scalar.le (Scalar.ofNat 0) c && Scalar.lt c (Scalar.ofNat size) then
      some c
    else none
  (onScreen center.x screenWidth, onScreen center.y screenHeight)

end Viewport

def ZoomRefusal.notice : ZoomRefusal Float → Notice
  | .factor value => ⟨.warn, "ignoring zoom factor " ++ Decimal.plain value⟩
  | .degenerate => ⟨.warn, "zoom would leave a degenerate viewport; unchanged"⟩

def ZoomResult.notices (result : ZoomResult Float) : List Notice :=
  result.refusal?.toList.map ZoomRefusal.notice

end PolishPlotter.Screen
