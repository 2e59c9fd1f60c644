import PolishPlotter.Decimal.Shortest
import PolishPlotter.Proofs.Binary64.Finite
import PolishPlotter.Proofs.Decimal.Numeral

set_option autoImplicit false

namespace PolishPlotter.Decimal

open Binary64

variable {bits num k : Nat} {exponent : Int} {scale : Scale} {x : Float}

theorem roundsTo_interval (rounds : roundsTo bits scale (4 * num) = true) :
    RoundsTo bits num scale.perValue := by
  have value : 4 * (mantissa bits * 2 ^ shift bits) * scale.perValue =
      4 * (mantissa bits * (scale.perValue * 2 ^ shift bits)) := by ring
  have gap : 2 ^ shift bits * scale.perValue = scale.perValue * 2 ^ shift bits := Nat.mul_comm ..
  simp only [roundsTo, halfGapBelow, halfGapAbove, units, Nat.pow_eq, Nat.sub_mul, Nat.add_mul,
    ite_mul, Nat.mul_assoc 2, gap, value] at rounds
  split_ifs at rounds <;> simp only [Bool.and_eq_true, decide_eq_true_eq] at rounds <;>
    constructor <;> omega

theorem multiple?_rounds (found : multiple? bits exponent = some k) :
    roundsTo bits (.ofExponent exponent) (k * (Scale.ofExponent exponent).perStep) = true := by
  simp only [multiple?] at found
  split_ifs at found with above below
  · cases found
    exact (Bool.and_eq_true_iff.mp above).1
  · cases found
    exact below

theorem nearestDecimal_of_multiple? (finite : bits < infinityBits)
    (found : multiple? bits exponent = some k) : nearestDecimal k exponent = bits := by
  have rounds := multiple?_rounds found
  have count : k * (Scale.ofExponent exponent).perStep =
      4 * (k * unitsPerOne * 10 ^ exponent.toNat) := by
    simp only [Scale.ofExponent, Nat.pow_eq]
    ring
  rw [count] at rounds
  have positive : 0 < (Scale.ofExponent exponent).perValue := Nat.pow_pos (by decide)
  exact (roundsTo_interval rounds).nearest_eq positive finite

theorem nearestDecimal_exact (finite : bits < infinityBits) :
    nearestDecimal (exact bits).significand (exact bits).exponent = bits := by
  have tens : Nat.pow 5 1074 * unitsPerOne = 10 ^ 1074 := by decide +kernel
  have written : exact bits = ⟨units bits * Nat.pow 5 1074, -((1074 : Nat) : Int)⟩ := rfl
  rw [written, nearestDecimal_neg, Nat.mul_assoc, tens]
  generalize scale : 10 ^ 1074 = tenths
  have given : 0 < tenths := by
    rw [← scale]
    positivity
  have reduced : nearest (units bits * tenths) (1 * tenths) = bits :=
    (nearest_mul_right given).trans (nearest_units finite)
  rwa [Nat.one_mul] at reduced

theorem shortest_cases (bits : Nat) :
    (∃ exponent k, multiple? bits exponent = some k ∧ shortest bits = ⟨k, exponent⟩) ∨
      shortest bits = exact bits := by
  have tried : shortest bits = ((List.range 18).findSome? fun (n : Nat) =>
      (multiple? bits (point bits - n)).map (⟨·, point bits - n⟩)).getD (exact bits) := rfl
  rw [tried]
  generalize List.range 18 = lengths
  cases found : lengths.findSome? fun (n : Nat) =>
      (multiple? bits (point bits - n)).map fun k => (⟨k, point bits - n⟩ : Digits) with
  | none => exact .inr rfl
  | some d =>
    obtain ⟨n, -, given⟩ := List.exists_of_findSome?_eq_some found
    obtain ⟨k, hit, rfl⟩ := Option.map_eq_some_iff.mp given
    exact .inl ⟨_, k, hit, rfl⟩

theorem nearestDecimal_shortest (finite : bits < infinityBits) :
    nearestDecimal (shortest bits).significand (shortest bits).exponent = bits := by
  rcases shortest_cases bits with ⟨exponent, k, hit, same⟩ | same
  · rw [same]
    exact nearestDecimal_of_multiple? finite hit
  · rw [same]
    exact nearestDecimal_exact finite

def unsignedText (bits : Nat) : List Char :=
  if bits = 0 then ['0'] else positional (shortest bits)

theorem unsignedText_numeral (finite : bits < infinityBits) :
    ∃ whole fraction, Numeral (unsignedText bits) whole fraction ∧
      decimal? (unsignedText bits) = some bits := by
  unfold unsignedText
  split_ifs with zero
  · have numeral : Numeral ['0'] ['0'] [] := .whole (by simp) (by simp)
    refine ⟨_, _, numeral, ?_⟩
    rw [numeral.decimal?, zero]
    exact congrArg some (nearestDecimal_zero _)
  · obtain ⟨whole, fraction, numeral, read⟩ := positional_numeral (shortest bits)
    exact ⟨whole, fraction, numeral, read.trans (congrArg some (nearestDecimal_shortest finite))⟩

theorem toList_plain (finite : x.isFinite = true) :
    (plain x).toList =
      if isNegative x then '-' :: unsignedText (magnitude x) else unsignedText (magnitude x) := by
  have bounded := isFinite_iff.mp finite
  simp only [plain, signed, isNaN_of_isFinite finite, bounded.ne, unsignedText, if_false,
    Bool.false_eq_true, String.toList_ofList]

theorem readChars?_plain (finite : x.isFinite = true) : readChars? (plain x).toList = some x := by
  obtain ⟨whole, fraction, numeral, read⟩ := unsignedText_numeral (isFinite_iff.mp finite)
  have same := ofMagnitude_magnitude x
  rw [toList_plain finite]
  cases sign : isNegative x with
  | false =>
    rw [sign] at same
    simp [numeral.readChars?.1, read, same]
  | true =>
    rw [sign] at same
    simp [numeral.readChars?.2, read, same]

end PolishPlotter.Decimal
