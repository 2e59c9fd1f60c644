import PolishPlotter.Json.Number

set_option autoImplicit false

namespace PolishPlotter.Json

inductive Bracket
  | list | object
  deriving DecidableEq, Repr

def skipName (s : List Char) : Except ReadError (List Char) :=
  match skipBlank s with
  | '"' :: s => skipString s >>= colon
  | [] => .error .truncated
  | _ => .error .malformed

mutual

/-- Passes over a value that stands inside the brackets `enclosing`, and over what closes them. Each
call takes at least one character, so `fuel` beyond the length of the text is never used up. -/
def skipValueFrom : Nat → List Bracket → List Char → Except ReadError (List Char)
  | 0, _, _ => .error .malformed
  | fuel + 1, enclosing, s =>
    match skipBlank s with
    | [] => .error .truncated
    | '[' :: s =>
      match skipBlank s with
      | [] => .error .truncated
      | ']' :: s => skipClosingFrom fuel enclosing s
      | s => skipValueFrom fuel (.list :: enclosing) s
    | '{' :: s =>
      match skipBlank s with
      | [] => .error .truncated
      | '}' :: s => skipClosingFrom fuel enclosing s
      | s =>
        match skipName s with
        | .ok s => skipValueFrom fuel (.object :: enclosing) s
        | .error e => .error e
    | c :: s =>
      let scalar :=
        if c = '"' then skipString s
        else if c = 'n' then expect ['u', 'l', 'l'] s
        else if c = 't' then expect ['r', 'u', 'e'] s
        else if c = 'f' then expect ['a', 'l', 's', 'e'] s
        else if c = '-' then Number.skip s
        else if c.isDigit then Number.skip (c :: s)
        else .error .malformed
      match scalar with
      | .ok s => skipClosingFrom fuel enclosing s
      | .error e => .error e

def skipClosingFrom : Nat → List Bracket → List Char → Except ReadError (List Char)
  | _, [], s => .ok s
  | 0, _ :: _, _ => .error .malformed
  | fuel + 1, bracket :: enclosing, s =>
    match skipBlank s, bracket with
    | [], _ => .error .truncated
    | ',' :: s, .list => skipValueFrom fuel (.list :: enclosing) s
    | ',' :: s, .object =>
      match skipName s with
      | .ok s => skipValueFrom fuel (.object :: enclosing) s
      | .error e => .error e
    | ']' :: s, .list => skipClosingFrom fuel enclosing s
    | '}' :: s, .object => skipClosingFrom fuel enclosing s
    | _, _ => .error .malformed

end

def skipValue (s : List Char) : Except ReadError (List Char) :=
  skipValueFrom (s.length + 1) [] s

end PolishPlotter.Json
