import PolishPlotter.Json.Skip

set_option autoImplicit false

namespace PolishPlotter.Json

def errorOf {α : Type} : Except ReadError α → ReadError
  | .error e => e
  | .ok _ => .malformed

/-- The error at a value of the wrong kind. A scalar is scanned first, and its own error counts. -/
def wrongKind : List Char → ReadError
  | [] => .truncated
  | '"' :: s => errorOf (string s)
  | 'n' :: s => errorOf (expect ['u', 'l', 'l'] s)
  | 't' :: s => errorOf (expect ['r', 'u', 'e'] s)
  | 'f' :: s => errorOf (expect ['a', 'l', 's', 'e'] s)
  | '-' :: s => errorOf (Number.scan true s)
  | s => if startsWithDigit s then errorOf (Number.scan false s) else .malformed

def number (s : List Char) : Except ReadError (Scanned Number) :=
  match skipBlank s with
  | '-' :: s => Number.scan true s
  | s => if startsWithDigit s then Number.scan false s else .error (wrongKind s)

def real (s : List Char) : Except ReadError (Scanned Float) := do
  let (n, s) ← number s
  .ok (n.toFloat, s)

def natural (bound : Nat) (s : List Char) : Except ReadError (Scanned Nat) := do
  let (n, s) ← number s
  match n.toNat? with
  | some n => if n < bound then .ok (n, s) else .error .malformed
  | none => .error .malformed

-- Where the next element of a list starts; nowhere before the closing bracket.
def element? (first : Bool) (s : List Char) : Except ReadError (Option (List Char)) :=
  match skipBlank s with
  | [] => .error .truncated
  | ']' :: _ => .ok none
  | ',' :: s =>
    if first then .error .malformed
    else
      match skipBlank s with
      | [] => .error .truncated
      | ']' :: _ => .error .malformed
      | s => .ok (some s)
  | s => if first then .ok (some s) else .error .malformed

def closeList (s : List Char) : Except ReadError (List Char) :=
  match skipBlank s with
  | ']' :: s => .ok s
  | [] => .error .truncated
  | _ => .error .malformed

def elements {α : Type} (item : List Char → Except ReadError (Scanned α)) :
    Bool → Nat → List Char → Except ReadError (Scanned (List α))
  | _, 0, s => do
    let s ← closeList s
    .ok ([], s)
  | first, n + 1, s => do
    match ← element? first s with
    | none => .error .malformed
    | some s =>
      let (x, s) ← item s
      let (xs, s) ← elements item false n s
      .ok (x :: xs, s)

def list {α : Type} (n : Nat) (item : List Char → Except ReadError (Scanned α)) (s : List Char) :
    Except ReadError (Scanned (List α)) :=
  match skipBlank s with
  | '[' :: s => elements item true n s
  | s => .error (wrongKind s)

-- A record is written as an object, or as a list of its fields in order.
structure RecordField (ρ : Type) where
  name : String
  read : ρ → List Char → Except ReadError (Scanned ρ)

variable {ρ : Type}

def positions :
    List (RecordField ρ) → Bool → ρ → List Char → Except ReadError (Scanned ρ)
  | [], _, record, s => do
    let s ← closeList s
    .ok (record, s)
  | field :: fields, first, record, s => do
    match ← element? first s with
    | none =>
      let s ← closeList s
      .ok (record, s)
    | some s =>
      let (record, s) ← field.read record s
      positions fields false record s

-- The name of the next member and what follows it; nothing before the closing brace.
def name? (first : Bool) (s : List Char) : Except ReadError (Option (List Char × List Char)) :=
  let quoted : List Char → Except ReadError (Option (List Char × List Char))
    | '"' :: s => (string s).map some
    | [] => .error .truncated
    | _ => .error .malformed
  match skipBlank s with
  | [] => .error .truncated
  | '}' :: _ => .ok none
  | ',' :: s => if first then .error .malformed else quoted (skipBlank s)
  | s => if first then quoted s else .error .malformed

/-- Reads members up to the closing brace. A field that comes twice is refused before its value is
looked at. -/
def members (fields : List (RecordField ρ)) :
    Nat → List String → Bool → ρ → List Char → Except ReadError (Scanned ρ)
  | 0, _, _, _, _ => .error .malformed
  | fuel + 1, seen, first, record, s => do
    match ← name? first s with
    | none => .ok (record, (skipBlank s).tail)
    | some (name, s) =>
      match fields.find? (·.name.toList = name) with
      | some field =>
        if seen.contains field.name then .error .malformed
        else
          let s ← colon s
          let (record, s) ← field.read record s
          members fields fuel (field.name :: seen) false record s
      | none =>
        let s ← colon s
        let s ← skipValue s
        members fields fuel seen false record s

def record (fields : List (RecordField ρ)) (defaults : ρ) (s : List Char) :
    Except ReadError (Scanned ρ) :=
  match skipBlank s with
  | '{' :: s => members fields (s.length + 1) [] true defaults s
  | '[' :: s => positions fields true defaults s
  | s => .error (wrongKind s)

def document (fields : List (RecordField ρ)) (defaults : ρ) (s : List Char) : Except ReadError ρ := do
  let (record, s) ← record fields defaults s
  if (skipBlank s).isEmpty then .ok record else .error .malformed

end PolishPlotter.Json
