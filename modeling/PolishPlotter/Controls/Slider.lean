import PolishPlotter.Machine.Scope
import PolishPlotter.Screen.Viewport

set_option autoImplicit false

namespace PolishPlotter.Controls

open Machine Screen

structure Slider where
  var : Var
  min : Float
  max : Float

namespace Slider

def initial : Float := 0.5

def create (vars : Vars) (name : String) : Slider × Vars :=
  let (var, vars) := vars.define name
  (⟨var, 0, 1⟩, vars.store var initial)

def value (s : Slider) (vars : Vars) : Float := vars.fetch s.var

def clamp (s : Slider) (v : Float) : Float :=
  if v < s.min then s.min else if s.max < v then s.max else v

def set (s : Slider) (vars : Vars) (v : Float) : Vars := vars.store s.var (s.clamp v)

-- Bounds in the wrong order are exchanged.
def setRange (s : Slider) (min max : Float) : Slider :=
  if max < min then { s with min := max, max := min } else { s with min := min, max := max }

def setMinimum (s : Slider) (vars : Vars) : Slider := s.setRange (s.value vars) s.max

def setMaximum (s : Slider) (vars : Vars) : Slider := s.setRange s.min (s.value vars)

def touch (s : Slider) (vars : Vars) (pos width : Float) : Vars :=
  s.set vars (interpolate pos 1 (width - 2) s.min s.max)

def reset (s : Slider) (vars : Vars) : Slider × Vars :=
  (s.setRange 0 1, vars.store s.var initial)

end Slider

structure Panel where
  sliders : List Slider

namespace Panel

def names : List String := ["a", "b", "c", "d"]

def createAll (vars : Vars) : List String → List Slider × Vars
  | [] => ([], vars)
  | name :: rest =>
    let (slider, vars) := Slider.create vars name
    let (sliders, vars) := createAll vars rest
    (slider :: sliders, vars)

def create (vars : Vars) : Panel × Vars :=
  let (sliders, vars) := createAll vars names
  (⟨sliders⟩, vars)

def find? (p : Panel) (name : String) : Option Slider := p.sliders.find? (·.var.name = name)

def replace (p : Panel) (s : Slider) : Panel :=
  ⟨p.sliders.map fun t => if t.var.name = s.var.name then s else t⟩

end Panel

end PolishPlotter.Controls
