import PolishPlotter.Binary64.Magnitude

set_option autoImplicit false

namespace PolishPlotter.Decimal

open Binary64

-- The number of decimal digits; zero has none.
def length (n : Nat) : Nat :=
  if n = 0 then 0 else length (n / 10) + 1
termination_by n
decreasing_by omega

/-- Where the decimal point stands, counted from the first digit: a magnitude is below
`10 ^ point` and not below `10 ^ (point - 1)`. -/
def point (bits : Nat) : Int :=
  if unitsPerOne ≤ units bits then length (units bits / unitsPerOne)
  else 1 - length ((unitsPerOne - 1) / units bits)

/-- A number of quarter units that some decimals `k * 10 ^ exponent` are compared with, all
multiplied by the same factor to make them whole. -/
structure Scale where
  perValue : Nat
  perStep : Nat

def Scale.ofExponent (exponent : Int) : Scale :=
  ⟨Nat.pow 10 (-exponent).toNat, 4 * unitsPerOne * Nat.pow 10 exponent.toNat⟩

-- Half the gap to the next smaller magnitude, in quarter units.
def halfGapBelow (bits : Nat) : Nat :=
  if mantissa bits = Nat.pow 2 52 ∧ 0 < shift bits then Nat.pow 2 (shift bits)
  else 2 * Nat.pow 2 (shift bits)

def halfGapAbove (bits : Nat) : Nat := 2 * Nat.pow 2 (shift bits)

/-- Whether `count` scaled quarter units round to the magnitude. The two midpoints do when the
mantissa is even. -/
def roundsTo (bits : Nat) (scale : Scale) (count : Nat) : Bool :=
  let low := (4 * units bits - halfGapBelow bits) * scale.perValue
  let high := (4 * units bits + halfGapAbove bits) * scale.perValue
  if mantissa bits % 2 = 0 then low ≤ count && count ≤ high else low < count && count < high

/-- The multiple of `10 ^ exponent` nearest to the magnitude among those that read back as it;
of two equally near ones the larger. -/
def multiple? (bits : Nat) (exponent : Int) : Option Nat :=
  let scale := Scale.ofExponent exponent
  let value := 4 * units bits * scale.perValue
  let k := value / scale.perStep
  let above := 2 * (value % scale.perStep) ≥ scale.perStep
  let below? := roundsTo bits scale (k * scale.perStep)
  let above? := roundsTo bits scale ((k + 1) * scale.perStep)
  if above? && (above || !below?) then some (k + 1)
  else if below? then some k
  else none

structure Digits where
  significand : Nat
  exponent : Int
  deriving DecidableEq, Repr

def exact (bits : Nat) : Digits := ⟨units bits * Nat.pow 5 1074, -1074⟩

/-- Of the decimals that read back as the magnitude, one with the fewest digits, and of those the
nearest. Seventeen digits always suffice. -/
def shortest (bits : Nat) : Digits :=
  let digits? (n : Nat) : Option Digits :=
    let exponent := point bits - n
    (multiple? bits exponent).map (⟨·, exponent⟩)
  ((List.range 18).findSome? digits?).getD (exact bits)

end PolishPlotter.Decimal
