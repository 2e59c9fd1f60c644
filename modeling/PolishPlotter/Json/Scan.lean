import PolishPlotter.Text.Octets

set_option autoImplicit false

namespace PolishPlotter.Json

inductive ReadError
  -- The text is not what it should be at some place.
  | malformed
  -- The text ends too early.
  | truncated
  deriving DecidableEq, Repr

-- With what was scanned comes what is left of the text. Texts are lists of octets, written as the
-- characters with these numbers.
abbrev Scanned (α : Type) := α × List Char

def isBlank (c : Char) : Bool := c = ' ' || c = '\n' || c = '\t' || c = '\r'

def skipBlank (s : List Char) : List Char := s.dropWhile isBlank

def expect : List Char → List Char → Except ReadError (List Char)
  | [], s => .ok s
  | _ :: _, [] => .error .truncated
  | e :: es, c :: s => if c = e then expect es s else .error .malformed

@[simp] theorem expect_append (expected s : List Char) : expect expected (expected ++ s) = .ok s := by
  induction expected with
  | nil => rfl
  | cons c rest ih => simp [expect, ih]

def startsWithDigit : List Char → Bool
  | c :: _ => c.isDigit
  | [] => false

def hexDigit? (c : Char) : Option Nat :=
  if c.isDigit then some (c.toNat - '0'.toNat)
  else if 'a' ≤ c ∧ c ≤ 'f' then some (c.toNat - 'a'.toNat + 10)
  else if 'A' ≤ c ∧ c ≤ 'F' then some (c.toNat - 'A'.toNat + 10)
  else none

def codeUnit : List Char → Except ReadError (Scanned Nat)
  | a :: b :: c :: d :: s =>
    match hexDigit? a, hexDigit? b, hexDigit? c, hexDigit? d with
    | some a, some b, some c, some d => .ok (((a * 16 + b) * 16 + c) * 16 + d, s)
    | _, _, _, _ => .error .malformed
  | _ => .error .truncated

def controlEscape? : Char → Option Char
  | '"' => some '"'
  | '\\' => some '\\'
  | '/' => some '/'
  | 'b' => some '\x08'
  | 'f' => some '\x0C'
  | 'n' => some '\n'
  | 'r' => some '\r'
  | 't' => some '\t'
  | _ => none

/-- A code point after `\u`; one beyond the first 65536 is written as a pair of surrogates. -/
def codePoint (s : List Char) : Except ReadError (Scanned Char) := do
  let (unit, s) ← codeUnit s
  if 0xD800 ≤ unit ∧ unit < 0xDC00 then
    let s ← expect ['\\', 'u'] s
    let (low, s) ← codeUnit s
    if 0xDC00 ≤ low ∧ low < 0xE000 then
      .ok (.ofNat (0x10000 + (unit - 0xD800) * 0x400 + (low - 0xDC00)), s)
    else .error .malformed
  else if 0xDC00 ≤ unit ∧ unit < 0xE000 then .error .malformed
  else .ok (.ofNat unit, s)

def escape : List Char → Except ReadError (Scanned (List Char))
  | [] => .error .truncated
  | 'u' :: s => do
    let (c, s) ← codePoint s
    .ok (octetsOf c, s)
  | c :: s =>
    match controlEscape? c with
    | some e => .ok ([e], s)
    | none => .error .malformed

/-- The rest of an escape in a string that nobody reads; a surrogate need not have its partner. -/
def skipEscape : List Char → Except ReadError (List Char)
  | [] => .error .truncated
  | 'u' :: s => (codeUnit s).map (·.2)
  | c :: s => if (controlEscape? c).isSome then .ok s else .error .malformed

def isControl (c : Char) : Bool := c.toNat < 0x20

def stringFrom : Nat → List Char → List Char → Except ReadError (Scanned (List Char))
  | 0, _, _ => .error .truncated
  | _, _, [] => .error .truncated
  | _ + 1, acc, '"' :: s =>
    if isUtf8 acc.reverse then .ok (acc.reverse, s) else .error .malformed
  | fuel + 1, acc, '\\' :: s =>
    match escape s with
    | .ok (octets, s) => stringFrom fuel (octets.reverse ++ acc) s
    | .error e => .error e
  | fuel + 1, acc, c :: s =>
    if isControl c then .error .malformed else stringFrom fuel (c :: acc) s

def string (s : List Char) : Except ReadError (Scanned (List Char)) :=
  stringFrom (s.length + 1) [] s

def skipStringFrom : Nat → List Char → Except ReadError (List Char)
  | 0, _ => .error .truncated
  | _, [] => .error .truncated
  | _ + 1, '"' :: s => .ok s
  | fuel + 1, '\\' :: s =>
    match skipEscape s with
    | .ok s => skipStringFrom fuel s
    | .error e => .error e
  | fuel + 1, c :: s => if isControl c then .error .malformed else skipStringFrom fuel s

def skipString (s : List Char) : Except ReadError (List Char) := skipStringFrom (s.length + 1) s

def colon (s : List Char) : Except ReadError (List Char) :=
  match skipBlank s with
  | ':' :: s => .ok s
  | [] => .error .truncated
  | _ => .error .malformed

end PolishPlotter.Json
