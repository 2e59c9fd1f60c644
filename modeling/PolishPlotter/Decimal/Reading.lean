import PolishPlotter.Decimal.Shortest

set_option autoImplicit false

namespace PolishPlotter.Decimal

open Binary64

def digitValue (c : Char) : Nat := c.toNat - '0'.toNat

def natural (digits : List Char) : Nat :=
  digits.foldl (fun n c => 10 * n + digitValue c) 0

/-- The magnitude nearest to `digits * 10 ^ exponent`. A decimal whose point is too far to either
side needs no arithmetic. -/
def magnitudeOf (digits : List Char) (exponent : Int) : Nat :=
  let digits := digits.dropWhile (· == '0')
  let point := digits.length + exponent
  if digits.isEmpty || point < -330 then 0
  else if 310 < point then infinityBits
  else
    nearest (natural digits * unitsPerOne * Nat.pow 10 exponent.toNat)
      (Nat.pow 10 (-exponent).toNat)

def splitSign : List Char → Bool × List Char
  | '-' :: cs => (true, cs)
  | '+' :: cs => (false, cs)
  | cs => (false, cs)

def isExponentMark (c : Char) : Bool := c = 'e' || c = 'E'

def exponent? : List Char → Option Int
  | [] => some 0
  | c :: cs =>
    if isExponentMark c then
      let (negative, digits) := splitSign cs
      if digits.isEmpty || !digits.all Char.isDigit then none
      else some (if negative then -(natural digits : Int) else natural digits)
    else none

def decimal? (cs : List Char) : Option Nat :=
  let whole := cs.takeWhile Char.isDigit
  let rest := cs.dropWhile Char.isDigit
  let (fraction, rest) := match rest with
    | '.' :: rest => (rest.takeWhile Char.isDigit, rest.dropWhile Char.isDigit)
    | rest => ([], rest)
  if whole.isEmpty && fraction.isEmpty then none
  else (exponent? rest).map fun exponent =>
    magnitudeOf (whole ++ fraction) (exponent - fraction.length)

def named? (cs : List Char) : Option Nat :=
  let name := cs.map Char.toLower
  if name = ['i', 'n', 'f'] ∨ name = ['i', 'n', 'f', 'i', 'n', 'i', 't', 'y'] then some infinityBits
  else if name = ['n', 'a', 'n'] then some nanBits
  else none

def readChars? (cs : List Char) : Option Float :=
  let (negative, cs) := splitSign cs
  (named? cs <|> decimal? cs).map (ofMagnitude negative)

def read? (text : String) : Option Float := readChars? text.toList

end PolishPlotter.Decimal
