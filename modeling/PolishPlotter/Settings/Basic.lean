import PolishPlotter.Machine.Run
import PolishPlotter.Controls.Slots
import PolishPlotter.Screen.Viewport

set_option autoImplicit false

namespace PolishPlotter

open Controls Screen

structure Settings where
  view : Viewport Float
  zoomFactor : Float
  -- The part of the span that one unit of stick deflection pans by.
  panRate : Float
  stackLimit : Nat
  colors : Vector Color slotCount

namespace Settings

def default : Settings where
  view := Viewport.default
  zoomFactor := 1.02
  panRate := 0.0002
  stackLimit := Machine.defaultStackLimit
  colors := slotColors

def zoomFactorUsable (factor : Float) : Bool := factor.isFinite && factor > 1

def panRateUsable (rate : Float) : Bool := rate.isFinite && rate > 0

def spanUsable (min max : Float) : Bool :=
  min.isFinite && max.isFinite && (max - min).isFinite && max - min ≥ minSpan

def viewUsable (v : Viewport Float) : Bool := spanUsable v.xmin v.xmax && spanUsable v.ymin v.ymax

-- A setting that cannot be used and gives way to its default.
inductive Repair
  | zoomFactor (value : Float)
  | panRate (value : Float)
  | stackLimit
  | view (value : Viewport Float)

def Repair.notice : Repair → Notice
  | .zoomFactor v => ⟨.warn, "zoom_factor " ++ Decimal.plain v ++ " must be greater than one"⟩
  | .panRate v => ⟨.warn, "pan_rate " ++ Decimal.plain v ++ " must be positive"⟩
  | .stackLimit => ⟨.warn, "stack_limit must be at least one"⟩
  | .view v =>
    let range (min max : Float) := "[" ++ Decimal.plain min ++ ", " ++ Decimal.plain max ++ "]"
    ⟨.warn, "view x " ++ range v.xmin v.xmax ++ " y " ++ range v.ymin v.ymax ++
      " is empty or reversed"⟩

def repairs (s : Settings) : List Repair :=
  (if zoomFactorUsable s.zoomFactor then [] else [.zoomFactor s.zoomFactor]) ++
  (if panRateUsable s.panRate then [] else [.panRate s.panRate]) ++
  (if s.stackLimit = 0 then [.stackLimit] else []) ++
  (if viewUsable s.view then [] else [.view s.view])

def validate (s : Settings) : Settings where
  view := if viewUsable s.view then s.view else default.view
  zoomFactor := if zoomFactorUsable s.zoomFactor then s.zoomFactor else default.zoomFactor
  panRate := if panRateUsable s.panRate then s.panRate else default.panRate
  stackLimit := if s.stackLimit = 0 then default.stackLimit else s.stackLimit
  colors := s.colors

end Settings

end PolishPlotter
