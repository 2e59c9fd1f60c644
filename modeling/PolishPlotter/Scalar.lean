set_option autoImplicit false

namespace PolishPlotter

class Scalar (α : Type) extends Add α, Sub α, Mul α, Div α, OfScientific α where
  ofNat : Nat → α
  isFinite : α → Bool
  lt : α → α → Bool
  le : α → α → Bool

instance : Scalar Float where
  ofNat n := .ofNat n
  isFinite x := x.isFinite
  lt x y := x < y
  le x y := x ≤ y

end PolishPlotter
