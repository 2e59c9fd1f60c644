import PolishPlotter.Session.Loop
import PolishPlotter.Settings.Parse

set_option autoImplicit false

namespace PolishPlotter.Loop

def namedFile : IO Settings.Named := do
  match ← IO.getEnv Settings.environmentVariable with
  | none => return none
  | some path =>
    try
      let bytes ← IO.FS.readBinFile path
      return some (path, some bytes.toList)
    catch _ => return some (path, none)

def perform : Effect → IO Unit
  | .write text | .prompt text => do
    let out ← IO.getStdout
    out.putStr text
    out.flush
  | .log notice => (Notice.upTo .warn [notice]).forM (IO.eprintln ·.line)
  | .buffer _ | .history _ | .completions _ => pure ()

-- The size of the terminal cannot be asked for here.
def unmeasured : Measured := .error "not supported"

partial def converse (state : State) : IO Unit := do
  let line ← (← IO.getStdin).getLine
  let stimulus := if line.isEmpty then .endOfInput
    else .line (.ofList (line.toList.takeWhile (· != '\n'))) unmeasured
  let turn := respond .ansi state stimulus
  turn.effects.forM perform
  match turn.next with
  | .ok state => converse state
  | .error (.failed reason) => IO.eprintln reason
  | .error .finished => return

end PolishPlotter.Loop

open PolishPlotter Loop in
def main : IO Unit := do
  let loaded := Settings.start .json (← namedFile)
  loaded.notices.forM (perform ∘ .log)
  let (state, shown) := start .ansi loaded.settings unmeasured false
  shown.forM perform
  converse state
