import PolishPlotter.Decimal.Shortest

set_option autoImplicit false

namespace PolishPlotter.Decimal

open Binary64

def zeros (n : Nat) : List Char := List.replicate n '0'

def naturalText (n : Nat) : List Char := Nat.toDigits 10 n

-- Writes the sign and the non-finite values, and leaves the magnitude to `finite`.
def signed (finite : Nat → List Char) (x : Float) : String :=
  if x.isNaN then "NaN"
  else
    let text := if magnitude x = infinityBits then ['i', 'n', 'f'] else finite (magnitude x)
    .ofList (if isNegative x then '-' :: text else text)

-- Puts a point before the last `places` of the digits, of which at least one stays in front.
def pointed (places : Nat) (digits : List Char) : List Char :=
  let digits := zeros (places + 1 - digits.length) ++ digits
  if places = 0 then digits
  else digits.take (digits.length - places) ++ '.' :: digits.drop (digits.length - places)

def positional (d : Digits) : List Char :=
  if 0 ≤ d.exponent then naturalText d.significand ++ zeros d.exponent.toNat
  else pointed (-d.exponent).toNat (naturalText d.significand)

def exponential (digits : List Char) (exponent : Int) : List Char :=
  (match digits with
    | [] => []
    | [d] => [d]
    | d :: ds => d :: '.' :: ds) ++
  'e' :: (if exponent < 0 then '-' :: naturalText exponent.natAbs else naturalText exponent.natAbs)

def plain (x : Float) : String :=
  signed (fun bits => if bits = 0 then ['0'] else positional (shortest bits)) x

/-- The shortest digits that read back, told apart from an integer by a point or an exponent. An
exponent stands below `10 ^ -4` and from `10 ^ 16` on. -/
def inspect (x : Float) : String :=
  signed (fun bits =>
    if bits = 0 then ['0', '.', '0']
    else
      let d := shortest bits
      let digits := naturalText d.significand
      let exponent := d.exponent + digits.length - 1
      if exponent < -4 || 16 ≤ exponent then exponential digits exponent
      else if 0 ≤ d.exponent then positional d ++ ['.', '0']
      else positional d) x

-- The exact value rounded to a number of decimals, ties to even.
def fixed (places : Nat) (x : Float) : String :=
  signed (fun bits =>
    pointed places (naturalText (roundEven (units bits * Nat.pow 10 places) unitsPerOne))) x

/-- The significand rounded to `places` decimals, and its power of ten. Rounding may carry into one
more digit. -/
def scientificParts (places bits : Nat) : Nat × Int :=
  if bits = 0 then (0, 0)
  else
    let exponent := point bits - 1
    let last := exponent - places
    let k := roundEven (units bits * Nat.pow 10 (-last).toNat) (unitsPerOne * Nat.pow 10 last.toNat)
    if k = Nat.pow 10 (places + 1) then (Nat.pow 10 places, exponent + 1) else (k, exponent)

def scientific (places : Nat) (x : Float) : String :=
  signed (fun bits =>
    let (k, exponent) := scientificParts places bits
    let digits := naturalText k
    exponential (zeros (places + 1 - digits.length) ++ digits) exponent) x

end PolishPlotter.Decimal
