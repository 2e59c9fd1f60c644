set_option autoImplicit false

namespace PolishPlotter.Binary64

-- Powers are written out: which one the notation means depends on the imports.
def signBit : Nat := Nat.pow 2 63

def infinityBits : Nat := 0x7FF0000000000000

def nanBits : Nat := 0x7FF8000000000000

def isNegative (x : Float) : Bool := signBit ≤ x.toBits.toNat

-- The bits without the sign are the rank of a magnitude among all magnitudes.
def magnitude (x : Float) : Nat := x.toBits.toNat % signBit

def ofMagnitude (negative : Bool) (bits : Nat) : Float :=
  .ofBits (UInt64.ofNat (if negative then signBit + bits else bits))

def nan : Float := ofMagnitude false nanBits

def shift (bits : Nat) : Nat := bits / Nat.pow 2 52 - 1

def mantissa (bits : Nat) : Nat := bits - shift bits * Nat.pow 2 52

def units (bits : Nat) : Nat := mantissa bits * Nat.pow 2 (shift bits)

-- A unit is `2 ^ -1074`, the smallest magnitude but zero.
def unitsPerOne : Nat := Nat.pow 2 1074

-- The whole number nearest to `num / den`; a half goes to the even neighbour.
def roundEven (num den : Nat) : Nat :=
  let whole := num / den
  let twice := 2 * (num % den)
  if twice < den then whole
  else if den < twice then whole + 1
  else whole + whole % 2

theorem roundEven_mul (k : Nat) {den : Nat} (h : 0 < den) : roundEven (k * den) den = k := by
  simp [roundEven, Nat.mul_div_cancel _ h, h]

/-- The magnitude nearest to `num / den` units. A mantissa that rounds up to the next power of two
carries into the exponent by itself. -/
def nearest (num den : Nat) : Nat :=
  let shift := (num / den).log2 - 52
  min (shift * Nat.pow 2 52 + roundEven num (den * Nat.pow 2 shift)) infinityBits

end PolishPlotter.Binary64
