import PolishPlotter.Json.Scan
import PolishPlotter.Settings.Basic

set_option autoImplicit false

namespace PolishPlotter.Settings

open Json (ReadError)

structure Reader where
  ofText : String → Except ReadError Settings
  ofBytes : List UInt8 → Except ReadError Settings

structure Loaded where
  settings : Settings
  notices : List Notice

def checked (given : Settings) : Loaded := ⟨given.validate, given.repairs.map (·.notice)⟩

def ofText (reader : Reader) (text : String) : Except ReadError Loaded :=
  (reader.ofText text).map checked

inductive LoadError
  | missing
  | unreadable (error : ReadError)
  deriving DecidableEq, Repr

def LoadError.text : LoadError → String
  | .missing => "no such file"
  | .unreadable .malformed => "not a settings file"
  | .unreadable .truncated => "the file ends too early"

-- What a path leads to: the bytes of a file, or nothing.
abbrev File := Option (List UInt8)

def load (reader : Reader) : File → Except LoadError Loaded
  | none => .error .missing
  | some bytes => ((reader.ofBytes bytes).map checked).mapError .unreadable

def environmentVariable : String := "GRAPHER_CONFIG"

abbrev Named := Option (String × File)

-- Any trouble with the file leaves the defaults.
def start (reader : Reader) : Named → Loaded
  | none => ⟨default, []⟩
  | some (path, file) =>
    match load reader file with
    | .ok loaded =>
      ⟨loaded.settings, loaded.notices ++ [⟨.info, "configuration loaded from " ++ path⟩]⟩
    | .error e => ⟨default, [⟨.warn, path ++ ": " ++ e.text ++ "; using defaults"⟩]⟩

end PolishPlotter.Settings
