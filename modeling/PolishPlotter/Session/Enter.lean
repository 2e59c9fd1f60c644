import PolishPlotter.Session.Basic
import PolishPlotter.Session.Command
import PolishPlotter.Text.Blank

set_option autoImplicit false

namespace PolishPlotter

open Controls Machine Screen

-- What is to be done after a line.
inductive Event
  | redraw
  | message (text : String)
  | trace (t : Trace)
  | quit

structure Reply where
  session : Session
  event : Event
  notices : List Notice

namespace Session

def addNotice (s : Session) (i : Instruction) : Notice :=
  ⟨.info, Slots.label s.slots.active ++ " += " ++ i.text⟩

-- A session in the middle of a line: the words that are left, and the notices so far.
structure Progress where
  session : Session
  words : List String
  notices : List Notice

/-- A command works on the session in place: what it has done by the time it is refused stays done. -/
abbrev Step := EStateM Refusal Progress

namespace Step

def current : Step Session := return (← get).session

def change (f : Session → Session) : Step Unit :=
  modify fun p => { p with session := f p.session }

def log (notices : List Notice) : Step Unit :=
  modify fun p => { p with notices := p.notices ++ notices }

def next? : Step (Option String) := do
  let p ← get
  match p.words with
  | [] => return none
  | word :: rest =>
    set { p with words := rest }
    return some word

def word (usage : String) : Step String := do
  match ← next? with
  | some word => return word
  | none => throw (.usage usage)

def numberOf (word : String) : Step Float :=
  match Decimal.read? word with
  | some x => return x
  | none => throw (.notANumber word)

def argument (usage : String) : Step Float := do numberOf (← word usage)

def slider (name : String) : Step Slider := do
  match (← current).panel.find? name with
  | some slider => return slider
  | none => throw (.noSlider name)

def endEntry : Step Unit := change fun s => { s with keypad := .empty }

def store (result : Except Error Equation) : Step Unit :=
  match result with
  | .ok e => change fun s => { s with slots := s.slots.setCurrent e }
  | .error e => throw (.failed e)

def add (i : Instruction) : Step Unit := do
  let s ← current
  log [s.addNotice i]
  store (s.slots.current.push i)

def press (key : Char) : Step Unit := do
  let s ← current
  let (edit, keypad) := s.keypad.key key
  change fun s => { s with keypad }
  store (edit.apply s.slots.current)

def pressAll : List Char → Step Unit
  | [] => return
  | key :: keys => do
    press key
    pressAll keys

-- A number is typed digit by digit as a fresh entry; its sign comes last.
def type (negative : Bool) (digits : List Char) : Step Unit := do
  endEntry
  pressAll digits
  if negative then press Keypad.sign

def zoom (result : Viewport Float → ZoomResult Float) : Step Unit := do
  let zoomed := result (← current).view
  log zoomed.notices
  change fun s => { s with view := zoomed.view }

def both (usage : String) (act : Float → Float → Session → Session) : Step Unit := do
  let dx ← argument usage
  let dy ← argument usage
  change (act dx dy)

def setting : Step Unit := do
  let usage := "set NAME VALUE"
  let name ← word usage
  let value ← argument usage
  let slider ← slider name
  change fun s => { s with vars := slider.set s.vars value }

def ranging : Step Unit := do
  let usage := "range NAME MIN MAX"
  let name ← word usage
  let min ← argument usage
  let max ← argument usage
  let slider ← slider name
  let value := slider.value (← current).vars
  let ranged := slider.setRange min max
  change fun s => { s with panel := s.panel.replace ranged }
  change fun s => { s with vars := ranged.set s.vars value }

def named (usage : String) (act : Slider → Session → Session) : Step Unit := do
  let name ← word usage
  change (act (← slider name))

def tracing : Step Trace := do
  match ← next? with
  | some word =>
    let x ← numberOf word
    return (← current).traceAt x
  | none => return (← current).traceCursor false

def redraw (step : Step Unit) : Step Event := do
  step
  return .redraw

def keyed (key : String) : Step Event :=
  match key with
  | "quit" | "exit" => return .quit
  | "bs" => redraw (press Keypad.backspace)
  | "neg" => redraw (press Keypad.sign)
  | "clear" => redraw do
    change fun s => { s with slots := s.slots.setCurrent s.slots.current.clear }
    endEntry
  | "up" => redraw do
    endEntry
    change fun s => { s with slots := s.slots.prev }
  | "down" => redraw do
    endEntry
    change fun s => { s with slots := s.slots.next }
  | "zoom+" => redraw do zoom (·.zoomIn (← current).settings.zoomFactor)
  | "zoom-" => redraw do zoom (·.zoomOut (← current).settings.zoomFactor)
  | "pan" => redraw (both "pan DX DY" fun dx dy s => { s with view := s.view.pan dx dy })
  | "stick" => redraw (both "stick DX DY" fun dx dy s =>
    { s with view := s.view.panByStick dx dy s.settings.panRate })
  | "view" => redraw (change fun s => { s with view := s.settings.view })
  | "set" => redraw setting
  | "range" => redraw ranging
  | "min" => redraw (named "min NAME" fun slider s =>
    { s with panel := s.panel.replace (slider.setMinimum s.vars) })
  | "max" => redraw (named "max NAME" fun slider s =>
    { s with panel := s.panel.replace (slider.setMaximum s.vars) })
  | "reset" => redraw (named "reset NAME" fun slider s =>
    let (slider, vars) := slider.reset s.vars
    { s with panel := s.panel.replace slider, vars })
  | "cursor" => do
    both "cursor DX DY" fun dx dy s => { s with cursor := s.cursor.nudge dx dy }
    return .trace ((← current).traceCursor false)
  | "trace" => return .trace (← tracing)
  | "snap" => return .trace ((← current).traceCursor true)
  | _ => throw (.unknownKey key)

def token (word : String) : Step Event := do
  match Command.instruction? (← current).vars word with
  | some i => redraw do
    endEntry
    add i
  | none =>
    let (negative, digits) := Command.unsigned word.toList
    if Command.isNumeral digits then redraw (type negative digits) else keyed word

-- Every command takes a word at least, so there are no more commands than words.
def tokens : Nat → Step Event
  | 0 => return .redraw
  | fuel + 1 => do
    match ← next? with
    | none => return .redraw
    | some word =>
      match ← token word with
      | .redraw => tokens fuel
      | event => return event

end Step

def reply : EStateM.Result Refusal Progress Event → Reply
  | .ok event p => ⟨p.session, event, p.notices⟩
  | .error refusal p => ⟨p.session, .message ("Error: " ++ refusal.message), p.notices⟩

def enter (s : Session) (line : String) : Reply :=
  let given := words line
  reply (Step.tokens given.length ⟨s, given, []⟩)

end Session

end PolishPlotter
