import PolishPlotter.Decimal.Reading
import PolishPlotter.Json.Scan

set_option autoImplicit false

namespace PolishPlotter.Json

-- Only integers of 64 bits are kept as they are.
inductive Number
  | natural (n : Nat)
  | negative (n : Nat)
  | real (x : Float)

def Number.toFloat : Number → Float
  | .natural n => (UInt64.ofNat n).toFloat
  | .negative n => -(UInt64.ofNat n).toFloat
  | .real x => x

def Number.toNat? : Number → Option Nat
  | .natural n => some n
  | _ => none

namespace Number

open Decimal (digitValue splitSign isExponentMark)

-- Digits that do not fit into the significand are not rounded: they count for their place only.
def takeDigits : Nat → Nat → List Char → Nat × Nat × List Char
  | significand, taken, [] => (significand, taken, [])
  | significand, taken, c :: s =>
    let next := 10 * significand + digitValue c
    if c.isDigit ∧ next < Nat.pow 2 64 then takeDigits next (taken + 1) s
    else (significand, taken, c :: s)

def tenTo (n : Nat) : Float :=
  Binary64.ofMagnitude false (Binary64.nearest (Nat.pow 10 n * Binary64.unitsPerOne) 1)

-- Divides by `10 ^ n`, in steps of at most `10 ^ 308`.
def divideByTenTo (x : Float) (n : Nat) : Float :=
  if n ≤ 308 then x / tenTo n
  else if x == 0 then x
  else divideByTenTo (x / tenTo 308) (n - 308)
termination_by n
decreasing_by omega

-- `significand * 10 ^ exponent`, or nothing when that is too large.
def scaled? (significand : Nat) (exponent : Int) : Option Float :=
  let x := (UInt64.ofNat significand).toFloat
  match exponent with
  | .ofNat n =>
    if n ≤ 308 then
      let y := x * tenTo n
      if y.isInf then none else some y
    else if x == 0 then some x
    else none
  | .negSucc n => some (divideByTenTo x (n + 1))

def ofParts (negative : Bool) (significand : Nat) (exponent : Int) (s : List Char) :
    Except ReadError (Scanned Number) :=
  match scaled? significand exponent with
  | some x => .ok (.real (if negative then -x else x), s)
  | none => .error .malformed

-- An exponent beyond 31 bits decides by its sign alone.
def withExponent (negative : Bool) (significand : Nat) (exponent : Int) (s : List Char) :
    Except ReadError (Scanned Number) :=
  let (down, s) := splitSign s
  if s.isEmpty then .error .truncated
  else if startsWithDigit s then
    let given := Decimal.natural (s.takeWhile Char.isDigit)
    let s := s.dropWhile Char.isDigit
    if given < Nat.pow 2 31 then
      ofParts negative significand (if down then exponent - given else exponent + given) s
    else if significand ≠ 0 ∧ !down then .error .malformed
    else .ok (.real (if negative then -0.0 else 0.0), s)
  else .error .malformed

def withFraction (negative : Bool) (significand : Nat) (exponent : Int) (s : List Char) :
    Except ReadError (Scanned Number) :=
  let (significand, taken, s) := takeDigits significand 0 s
  if taken = 0 ∧ s.isEmpty then .error .truncated
  else if taken = 0 ∧ !startsWithDigit s then .error .malformed
  else
    match s.dropWhile Char.isDigit with
    | c :: s =>
      if isExponentMark c then withExponent negative significand (exponent - taken) s
      else ofParts negative significand (exponent - taken) (c :: s)
    | [] => ofParts negative significand (exponent - taken) []

/-- A negative integer of more than 63 bits, or a negative zero, is not kept as an integer. -/
def integer (negative : Bool) (significand : Nat) : Number :=
  if !negative then .natural significand
  else if 0 < significand ∧ significand ≤ Nat.pow 2 63 then .negative significand
  else .real (-(UInt64.ofNat significand).toFloat)

-- Reads on after the integer digits, of which `dropped` did not fit.
def withInteger (negative : Bool) (significand dropped : Nat) (s : List Char) :
    Except ReadError (Scanned Number) :=
  match s with
  | '.' :: s => withFraction negative significand dropped s
  | c :: s =>
    if isExponentMark c then withExponent negative significand dropped s
    else if dropped = 0 then .ok (integer negative significand, c :: s)
    else ofParts negative significand dropped (c :: s)
  | [] =>
    if dropped = 0 then .ok (integer negative significand, [])
    else ofParts negative significand dropped []

def scan (negative : Bool) (s : List Char) : Except ReadError (Scanned Number) :=
  match s with
  | [] => .error .truncated
  | '0' :: s => if startsWithDigit s then .error .malformed else withInteger negative 0 0 s
  | s =>
    if startsWithDigit s then
      let (significand, _, s) := takeDigits 0 0 s
      let dropped := (s.takeWhile Char.isDigit).length
      withInteger negative significand dropped (s.drop dropped)
    else .error .malformed

def skipExponent (s : List Char) : Except ReadError (List Char) :=
  let (_, s) := splitSign s
  if startsWithDigit s then .ok (s.dropWhile Char.isDigit) else .error .malformed

def skipFraction (s : List Char) : Except ReadError (List Char) :=
  if startsWithDigit s then
    match s.dropWhile Char.isDigit with
    | c :: s => if isExponentMark c then skipExponent s else .ok (c :: s)
    | [] => .ok []
  else .error .malformed

def skip (s : List Char) : Except ReadError (List Char) :=
  let tail (s : List Char) : Except ReadError (List Char) :=
    match s with
    | '.' :: s => skipFraction s
    | c :: s => if isExponentMark c then skipExponent s else .ok (c :: s)
    | [] => .ok []
  match s with
  | '0' :: s => if startsWithDigit s then .error .malformed else tail s
  | s => if startsWithDigit s then tail (s.dropWhile Char.isDigit) else .error .malformed

end Number

end PolishPlotter.Json
