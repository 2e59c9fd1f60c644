import PolishPlotter.Json.Record
import PolishPlotter.Settings.Read

set_option autoImplicit false

namespace PolishPlotter.Settings

open Controls Json Screen

def viewFields : List (RecordField (Viewport Float)) :=
  [⟨"xmin", fun v s => do let (x, s) ← real s; .ok ({ v with xmin := x }, s)⟩,
    ⟨"xmax", fun v s => do let (x, s) ← real s; .ok ({ v with xmax := x }, s)⟩,
    ⟨"ymin", fun v s => do let (y, s) ← real s; .ok ({ v with ymin := y }, s)⟩,
    ⟨"ymax", fun v s => do let (y, s) ← real s; .ok ({ v with ymax := y }, s)⟩]

def color (s : List Char) : Except ReadError (Scanned Color) := do
  match ← list 3 (natural 256) s with
  | ([r, g, b], s) => .ok (⟨.ofNat r, .ofNat g, .ofNat b⟩, s)
  | _ => .error .malformed

def colorTable (s : List Char) : Except ReadError (Scanned (Vector Color slotCount)) := do
  match ← list slotCount color s with
  | ([a, b, c, d], s) => .ok (#v[a, b, c, d], s)
  | _ => .error .malformed

def fields : List (RecordField Settings) :=
  [⟨"view", fun t s => do
      let (v, s) ← record viewFields Viewport.default s
      .ok ({ t with view := v }, s)⟩,
    ⟨"zoom_factor", fun t s => do let (x, s) ← real s; .ok ({ t with zoomFactor := x }, s)⟩,
    ⟨"pan_rate", fun t s => do let (x, s) ← real s; .ok ({ t with panRate := x }, s)⟩,
    ⟨"stack_limit", fun t s => do
      let (n, s) ← natural (Nat.pow 2 64) s
      .ok ({ t with stackLimit := n }, s)⟩,
    ⟨"colors", fun t s => do let (c, s) ← colorTable s; .ok ({ t with colors := c }, s)⟩]

def parse (source : List Char) : Except ReadError Settings := document fields default source

def Reader.json : Reader where
  ofText text := parse (octetsOfText text)
  ofBytes bytes := parse (octets bytes)

end PolishPlotter.Settings
