import PolishPlotter.Session.Enter

set_option autoImplicit false

namespace PolishPlotter

open Controls Machine Screen

-- What a line is made of. A command holds the arguments that its words have been read as.
inductive Command
  | add (i : Instruction)
  | number (negative : Bool) (digits : List Char)
  | backspace
  | negate
  | clear
  | up
  | down
  | zoomIn
  | zoomOut
  | pan (dx dy : Float)
  | stick (dx dy : Float)
  | resetView
  | set (name : String) (value : Float)
  | range (name : String) (min max : Float)
  | minimum (name : String)
  | maximum (name : String)
  | reset (name : String)
  | move (dx dy : Float)
  | trace
  | traceAt (x : Float)
  | snap
  | quit

namespace Command

def argumentCount : Command → Nat
  | .pan _ _ | .stick _ _ | .set _ _ | .move _ _ => 2
  | .range _ _ _ => 3
  | .minimum _ | .maximum _ | .reset _ | .traceAt _ => 1
  | _ => 0

def number? (word : String) : Option Command :=
  let (negative, digits) := unsigned word.toList
  if isNumeral digits then some (.number negative digits) else none

def word (usage : String) : List String → Except Refusal (String × List String)
  | [] => .error (.usage usage)
  | w :: rest => .ok (w, rest)

def numberOf (w : String) : Except Refusal Float :=
  match Decimal.read? w with
  | some x => .ok x
  | none => .error (.notANumber w)

def argument (usage : String) (words : List String) : Except Refusal (Float × List String) := do
  let (w, rest) ← word usage words
  .ok (← numberOf w, rest)

def pair (make : Float → Float → Command) (usage : String) (words : List String) :
    Except Refusal Command := do
  let (x, words) ← argument usage words
  let (y, _) ← argument usage words
  .ok (make x y)

def named (make : String → Command) (usage : String) (words : List String) :
    Except Refusal Command := do
  let (name, _) ← word usage words
  .ok (make name)

def setting (words : List String) : Except Refusal Command := do
  let usage := "set NAME VALUE"
  let (name, words) ← word usage words
  let (value, _) ← argument usage words
  .ok (.set name value)

def ranging (words : List String) : Except Refusal Command := do
  let usage := "range NAME MIN MAX"
  let (name, words) ← word usage words
  let (min, words) ← argument usage words
  let (max, _) ← argument usage words
  .ok (.range name min max)

def tracing : List String → Except Refusal Command
  | [] => .ok .trace
  | w :: _ => do .ok (.traceAt (← numberOf w))

def ofKey (key : String) (words : List String) : Except Refusal Command :=
  match key with
  | "quit" | "exit" => .ok .quit
  | "bs" => .ok .backspace
  | "neg" => .ok .negate
  | "clear" => .ok .clear
  | "up" => .ok .up
  | "down" => .ok .down
  | "zoom+" => .ok .zoomIn
  | "zoom-" => .ok .zoomOut
  | "pan" => pair .pan "pan DX DY" words
  | "stick" => pair .stick "stick DX DY" words
  | "view" => .ok .resetView
  | "set" => setting words
  | "range" => ranging words
  | "min" => named .minimum "min NAME" words
  | "max" => named .maximum "max NAME" words
  | "reset" => named .reset "reset NAME" words
  | "cursor" => pair .move "cursor DX DY" words
  | "trace" => tracing words
  | "snap" => .ok .snap
  | _ => .error (.unknownKey key)

def read (vars : Vars) (key : String) (words : List String) : Except Refusal Command :=
  match instruction? vars key with
  | some i => .ok (.add i)
  | none =>
    match number? key with
    | some command => .ok command
    | none => ofKey key words

end Command

namespace Session

def endEntry (s : Session) : Session := { s with keypad := .empty }

def add (s : Session) (i : Instruction) : Except Refusal Session :=
  match s.slots.current.push i with
  | .ok e => .ok { s with slots := s.slots.setCurrent e }
  | .error e => .error (.failed e)

def key (s : Session) (c : Char) : Except Refusal Session :=
  let (edit, keypad) := s.keypad.key c
  match edit.apply s.slots.current with
  | .ok e => .ok { s with keypad, slots := s.slots.setCurrent e }
  | .error e => .error (.failed e)

-- A number is typed digit by digit as a fresh entry; its sign comes last.
def number (s : Session) (negative : Bool) (digits : List Char) : Except Refusal Session :=
  match Keypad.empty.type s.slots.current digits with
  | .ok (keypad, e) =>
    let s := { s with keypad, slots := s.slots.setCurrent e }
    if negative then s.key Keypad.sign else .ok s
  | .error e => .error (.failed e)

def slider (s : Session) (name : String) : Except Refusal Slider :=
  match s.panel.find? name with
  | some slider => .ok slider
  | none => .error (.noSlider name)

def zoom (s : Session) (result : ZoomResult Float) : Reply :=
  ⟨{ s with view := result.view }, .redraw, result.notices⟩

def redraw (s : Session) : Reply := ⟨s, .redraw, []⟩

def apply (s : Session) : Command → Except Refusal Reply
  | .add i => do
    let t ← s.endEntry.add i
    .ok ⟨t, .redraw, [s.addNotice i]⟩
  | .number negative digits => do .ok (← s.number negative digits).redraw
  | .backspace => do .ok (← s.key Keypad.backspace).redraw
  | .negate => do .ok (← s.key Keypad.sign).redraw
  | .clear => .ok { s.endEntry with slots := s.slots.setCurrent s.slots.current.clear }.redraw
  | .up => .ok { s.endEntry with slots := s.slots.prev }.redraw
  | .down => .ok { s.endEntry with slots := s.slots.next }.redraw
  | .zoomIn => .ok (s.zoom (s.view.zoomIn s.settings.zoomFactor))
  | .zoomOut => .ok (s.zoom (s.view.zoomOut s.settings.zoomFactor))
  | .pan dx dy => .ok { s with view := s.view.pan dx dy }.redraw
  | .stick dx dy => .ok { s with view := s.view.panByStick dx dy s.settings.panRate }.redraw
  | .resetView => .ok { s with view := s.settings.view }.redraw
  | .set name value => do
    let slider ← s.slider name
    .ok { s with vars := slider.set s.vars value }.redraw
  | .range name min max => do
    let slider ← s.slider name
    let ranged := slider.setRange min max
    .ok { s with
      panel := s.panel.replace ranged
      vars := ranged.set s.vars (slider.value s.vars) }.redraw
  | .minimum name => do
    let slider ← s.slider name
    .ok { s with panel := s.panel.replace (slider.setMinimum s.vars) }.redraw
  | .maximum name => do
    let slider ← s.slider name
    .ok { s with panel := s.panel.replace (slider.setMaximum s.vars) }.redraw
  | .reset name => do
    let slider ← s.slider name
    let (slider, vars) := slider.reset s.vars
    .ok { s with panel := s.panel.replace slider, vars }.redraw
  | .move dx dy =>
    let moved := { s with cursor := s.cursor.nudge dx dy }
    .ok ⟨moved, .trace (moved.traceCursor false), []⟩
  | .trace => .ok ⟨s, .trace (s.traceCursor false), []⟩
  | .traceAt x => .ok ⟨s, .trace (s.traceAt x), []⟩
  | .snap => .ok ⟨s, .trace (s.traceCursor true), []⟩
  | .quit => .ok ⟨s, .quit, []⟩

def attempt (s : Session) (key : String) (words : List String) :
    Except Refusal (Command × Reply) := do
  let command ← Command.read s.vars key words
  .ok (command, ← s.apply command)

def refuse (s : Session) (refusal : Refusal) : Reply :=
  ⟨s, .message ("Error: " ++ refusal.message), []⟩

/-- Carries out the commands of a line until one of them ends it. The first `taken` words are
arguments of the command before them. -/
def enterWords (s : Session) : Nat → List String → Reply
  | _, [] => s.redraw
  | taken + 1, _ :: rest => enterWords s taken rest
  | 0, key :: rest =>
    match s.attempt key rest with
    | .error refusal => s.refuse refusal
    | .ok (command, ⟨t, .redraw, notices⟩) =>
      let reply := enterWords t command.argumentCount rest
      { reply with notices := notices ++ reply.notices }
    | .ok (_, reply) => reply

end Session

end PolishPlotter
