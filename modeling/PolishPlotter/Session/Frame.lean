import PolishPlotter.Screen.Canvas
import PolishPlotter.Session.Basic

set_option autoImplicit false

namespace PolishPlotter.Session

open Controls Screen

structure TerminalSize where
  columns : Nat
  lines : Nat

def TerminalSize.fallback : TerminalSize := ⟨80, 24⟩

-- The lines below the plot, for the slots, the sliders and the prompt.
def textLines : Nat := 8

def plot (s : Session) (size : TerminalSize) (curves : List Curve) : Canvas :=
  let canvas := Canvas.blank size.columns (max (size.lines - textLines) 4)
  (curves.zip s.slots.equations.toList).foldl
    (fun canvas (curve, e) => canvas.curve curve e.color) (canvas.axes s.view)

def slotLine (s : Session) (paint : Paint) (index : Nat) (e : Equation) : String :=
  let marker := if index = s.slots.active then ">" else " "
  paint.colored e.color (marker ++ Slots.label index ++ " = " ++ s.slotTranscript index) ++ "\n"

def errorLine (paint : Paint) (error : Machine.Error) : String :=
  paint.bold ("Error: " ++ error.message) ++ "\n"

def sliderText (s : Session) (slider : Slider) : String :=
  slider.var.name ++ "=" ++ Decimal.fixed 5 (slider.value s.vars) ++
    " [" ++ Decimal.plain slider.min ++ ", " ++ Decimal.plain slider.max ++ "]"

def sliderLine (s : Session) : String :=
  "  ".intercalate (s.panel.sliders.map s.sliderText) ++ "\n"

def rangeText (name : String) (min max : Float) : String :=
  name ++ " [" ++ Decimal.fixed 4 min ++ ", " ++ Decimal.fixed 4 max ++ "]"

def viewLine (v : Viewport Float) : String :=
  rangeText "x" v.xmin v.xmax ++ "  " ++ rangeText "y" v.ymin v.ymax ++ "\n"

def frame (s : Session) (paint : Paint) (size : TerminalSize) : String :=
  let curves := s.curves
  let slotLines := s.slots.equations.toList.zipIdx.map fun (e, i) => s.slotLine paint i e
  let error := match curves[s.slots.active]?.bind (·.error) with
    | some error => errorLine paint error
    | none => ""
  (s.plot size curves).render paint ++ .join slotLines ++ error ++ s.sliderLine ++ viewLine s.view

end PolishPlotter.Session
