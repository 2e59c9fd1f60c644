import PolishPlotter.Session.Enter
import PolishPlotter.Session.Frame

set_option autoImplicit false

namespace PolishPlotter.Loop

open Controls Screen
open Session (TerminalSize)

-- The size of the terminal, or why it cannot be found.
abbrev Measured := Except String TerminalSize

def sizeOf : Measured → TerminalSize
  | .ok size => size
  | .error _ => .fallback

def sizeNotices : Measured → List Notice
  | .ok _ => []
  | .error reason => [⟨.debug, "terminal size unavailable: " ++ reason⟩]

-- What may come up while a line is being read. With a line comes the size of the terminal as it is
-- found when the line is answered.
inductive Stimulus
  | line (text : String) (measured : Measured)
  | interrupt
  | otherSignal
  | endOfInput
  | failure (reason : String)
  | complete (word : String)
  | raise

-- What the loop asks of the line editor and of the log.
inductive Effect
  | write (text : String)
  | prompt (text : String)
  | buffer (text : String)
  | history (line : String)
  | completions (words : Option (List String))
  | log (notice : Notice)

inductive Outcome
  | finished
  | failed (reason : String)

structure State where
  session : Session
  raised : Bool

structure Turn where
  effects : List Effect
  next : Except Outcome State

structure Run where
  effects : List Effect
  outcome : Outcome

def Run.after (run : Run) (effects : List Effect) : Run :=
  { run with effects := effects ++ run.effects }

def redraw (paint : Paint) (s : Session) (measured : Measured) : List Effect :=
  (sizeNotices measured ++ s.scanNotices).map .log ++ [.write (s.frame paint (sizeOf measured))]

def traceText (t : Trace) : String :=
  let y := match t.y with
    | some y => "Y = " ++ Decimal.fixed 5 y
    | none => "Y undefined"
  "X = " ++ Decimal.fixed 5 t.x ++ "  " ++ y ++ "\n"

def answer (paint : Paint) (s : Session) (measured : Measured) : Event → List Effect
  | .redraw => redraw paint s measured
  | .message text => [.write (paint.bold text ++ "\n")]
  | .trace t => [.write (traceText t)]
  | .quit => []

def remember (line : String) : List Effect := if isBlankLine line then [] else [.history line]

def interrupt (s : Session) : Session × List Effect :=
  (s.interrupt, [.log Session.interruptNotice])

def ready (state : State) : State × List Effect :=
  let (session, effects) := if state.raised then interrupt state.session else (state.session, [])
  (⟨session, false⟩, effects ++ [.prompt (Slots.label session.slots.active ++ "> ")])

def respond (paint : Paint) (state : State) : Stimulus → Turn
  | .endOfInput | .otherSignal => ⟨[], .error .finished⟩
  | .failure reason => ⟨[], .error (.failed reason)⟩
  | .raise => ⟨[], .ok { state with raised := true }⟩
  | .complete word => ⟨[.completions (Command.complete word)], .ok state⟩
  | .interrupt =>
    let (session, cancelled) := interrupt state.session
    let (state, shown) := ready { state with session }
    ⟨.buffer "" :: cancelled ++ shown, .ok state⟩
  | .line text measured =>
    let reply := state.session.enter text
    let logged := reply.notices.map .log
    match reply.event with
    | .quit => ⟨logged, .error .finished⟩
    | event =>
      let answered := answer paint reply.session measured event ++ remember text
      let (state, shown) := ready { state with session := reply.session }
      ⟨logged ++ answered ++ shown, .ok state⟩

def start (paint : Paint) (settings : Settings) (measured : Measured) (raised : Bool) :
    State × List Effect :=
  let session := Session.new settings
  let (state, shown) := ready ⟨session, raised⟩
  (state, redraw paint session measured ++ shown)

-- The input ends after the last stimulus.
def resume (paint : Paint) (state : State) : List Stimulus → Run
  | [] => ⟨[], .finished⟩
  | stimulus :: rest =>
    match respond paint state stimulus with
    | ⟨effects, .error outcome⟩ => ⟨effects, outcome⟩
    | ⟨effects, .ok state⟩ => (resume paint state rest).after effects

def run (paint : Paint) (settings : Settings) (measured : Measured) (raised : Bool)
    (stimuli : List Stimulus) : Run :=
  let (state, shown) := start paint settings measured raised
  (resume paint state stimuli).after shown

end PolishPlotter.Loop
