import PolishPlotter.Screen.Curve
import PolishPlotter.Controls.Keypad
import PolishPlotter.Controls.Slider
import PolishPlotter.Screen.Cursor
import PolishPlotter.Settings.Basic

set_option autoImplicit false

namespace PolishPlotter

open Controls Machine Screen

structure Session where
  settings : Settings
  view : Viewport Float
  vars : Vars
  panel : Panel
  slots : Slots
  keypad : Keypad
  cursor : Cursor

namespace Session

def new (settings : Settings) : Session :=
  let (panel, vars) := Panel.create Vars.new
  { settings, vars, panel
    view := settings.view
    slots := .withSine settings.colors
    keypad := .empty
    cursor := .center }

def transcript (s : Session) : String := s.slots.current.transcript s.keypad.entry?

-- The number being typed belongs to the active slot only.
def slotTranscript (s : Session) (index : Nat) : String :=
  match s.slots.get? index with
  | some e => e.transcript (if index = s.slots.active then s.keypad.entry? else none)
  | none => ""

def scan (s : Session) (e : Equation) : List Column :=
  Sampler.screen.scan s.settings.stackLimit e.instructions s.view s.vars

def scans (s : Session) : List (List Column) := s.slots.equations.toList.map s.scan

def curves (s : Session) : List Curve := s.scans.map Curve.ofColumns

def scanNotices (s : Session) : List Notice := s.scans.flatMap notices

def traceCursor (s : Session) (snapped : Bool) : Trace :=
  trace s.settings.stackLimit s.slots.current.instructions s.view s.vars s.cursor snapped

def traceAt (s : Session) (x : Float) : Trace :=
  Screen.traceAt s.settings.stackLimit s.slots.current.instructions s.vars x

def interrupt (s : Session) : Session := { s with keypad := .empty }

def interruptNotice : Notice := ⟨.debug, "entry cancelled"⟩

end Session

end PolishPlotter
