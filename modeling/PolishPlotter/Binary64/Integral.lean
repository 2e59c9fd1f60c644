import PolishPlotter.Binary64.Magnitude

set_option autoImplicit false

namespace PolishPlotter.Binary64

/-- Drops the fraction and keeps the sign, also that of zero. From `2 ^ 52` on there is no
fraction to drop. -/
def truncate (x : Float) : Float :=
  if x.abs < 4503599627370496 then
    let whole := x.abs.toUInt64.toFloat
    if isNegative x then -whole else whole
  else x

def floor (x : Float) : Float :=
  let whole := truncate x
  if x < whole then whole - 1 else whole

def ceil (x : Float) : Float :=
  let whole := truncate x
  if whole < x then whole + 1 else whole

-- The nearest whole number; a half goes away from zero.
def round (x : Float) : Float :=
  let whole := truncate x
  if 0.5 ≤ (x - whole).abs then
    if isNegative x then whole - 1 else whole + 1
  else whole

/-- The exact remainder of a division that truncates: it has the sign of the dividend. -/
def remainder (x y : Float) : Float :=
  let divisor := magnitude y
  if magnitude x < infinityBits && divisor != 0 && divisor ≤ infinityBits then
    if divisor = infinityBits then x
    else ofMagnitude (isNegative x) (nearest (units (magnitude x) % units divisor) 1)
  else nan

-- The larger of two numbers, or the one that is a number.
def larger (x y : Float) : Float :=
  if x.isNaN || x < y then y else x

-- The smaller of two numbers, or the one that is a number.
def smaller (x y : Float) : Float :=
  if x.isNaN || y < x then y else x

-- The nearest whole number toward zero within 32 bits; NaN counts as zero.
def toInt32 (x : Float) : Int :=
  if x.isNaN then 0
  else if x < 0 then -(min x.abs.toUInt64.toNat 2147483648 : Nat)
  else (min x.toUInt64.toNat 2147483647 : Nat)

-- `acc * base ^ n` by repeated squaring, each product rounded.
def powAux (acc base : Float) (n : Nat) : Float :=
  if n = 0 then acc
  else
    let acc := if n % 2 = 1 then acc * base else acc
    if n < 2 then acc else powAux acc (base * base) (n / 2)
termination_by n
decreasing_by omega

def pow (base : Float) : Int → Float
  | .ofNat n => powAux 1 base n
  | .negSucc n => 1 / powAux 1 base (n + 1)

end PolishPlotter.Binary64
