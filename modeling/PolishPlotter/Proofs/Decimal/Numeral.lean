import Mathlib.Data.List.TakeWhile
import Mathlib.Tactic.IntervalCases
import PolishPlotter.Decimal.Layout
import PolishPlotter.Decimal.Reading
import PolishPlotter.Proofs.Binary64.Nearest

set_option autoImplicit false

namespace PolishPlotter.Decimal

open Binary64

variable {c : Char} {digits whole fraction text : List Char} {n : Nat}

section Natural

theorem toNat_of_isDigit (digit : c.isDigit = true) : 48 ≤ c.toNat ∧ c.toNat ≤ 57 := by
  simp only [Char.isDigit, Bool.and_eq_true, decide_eq_true_eq] at digit
  exact ⟨digit.1, digit.2⟩

theorem digitValue_lt (digit : c.isDigit = true) : digitValue c < 10 := by
  obtain ⟨low, high⟩ := toNat_of_isDigit digit
  change c.toNat - 48 < 10
  omega

theorem digitValue_pos (digit : c.isDigit = true) (other : c ≠ '0') : 0 < digitValue c := by
  obtain ⟨low, high⟩ := toNat_of_isDigit digit
  have apart : c.toNat ≠ 48 := by
    intro same
    exact other (Char.toNat_inj.mp same)
  change 0 < c.toNat - 48
  omega

theorem natural_cons (c : Char) (digits : List Char) :
    natural (c :: digits) = 10 ^ digits.length * digitValue c + natural digits := by
  have value : natural (c :: digits) = Nat.ofDigitChars 10 digits (digitValue c) := by
    simp [natural, Nat.ofDigitChars, digitValue]
  rw [value, Nat.ofDigitChars_eq_ofDigitChars_zero]
  rfl

theorem natural_lt (all : ∀ c ∈ digits, c.isDigit = true) :
    natural digits < 10 ^ digits.length := by
  induction digits with
  | nil => decide
  | cons c rest ih =>
    rw [List.forall_mem_cons] at all
    have first := Nat.mul_le_mul_left (10 ^ rest.length) (Nat.le_of_lt_succ (digitValue_lt all.1))
    have later := ih all.2
    rw [natural_cons, List.length_cons, pow_succ]
    omega

theorem le_natural (digit : c.isDigit = true) (other : c ≠ '0') :
    10 ^ digits.length ≤ natural (c :: digits) := by
  rw [natural_cons]
  exact Nat.le_trans (Nat.le_mul_of_pos_right _ (digitValue_pos digit other)) (Nat.le_add_right ..)

theorem natural_dropWhile (digits : List Char) :
    natural (digits.dropWhile (· == '0')) = natural digits := by
  induction digits with
  | nil => rfl
  | cons c rest ih =>
    by_cases zero : c = '0'
    · subst zero
      rw [List.dropWhile_cons_of_pos rfl, ih, natural_cons]
      simp [digitValue]
    · rw [List.dropWhile_cons_of_neg (by simpa using zero)]

theorem natural_zeros_append (n : Nat) (digits : List Char) :
    natural (zeros n ++ digits) = natural digits := by
  change Nat.ofDigitChars 10 (zeros n ++ digits) 0 = Nat.ofDigitChars 10 digits 0
  simp [zeros, Nat.ofDigitChars_append]

theorem natural_append_zeros (digits : List Char) (n : Nat) :
    natural (digits ++ zeros n) = natural digits * 10 ^ n := by
  change Nat.ofDigitChars 10 (digits ++ zeros n) 0 = Nat.ofDigitChars 10 digits 0 * 10 ^ n
  simp [zeros, Nat.ofDigitChars_append, Nat.mul_comm]

theorem natural_naturalText (n : Nat) : natural (naturalText n) = n :=
  Nat.ofDigitChars_ten_toDigits

end Natural

section Magnitude

def nearestDecimal (n : Nat) (exponent : Int) : Nat :=
  nearest (n * unitsPerOne * 10 ^ exponent.toNat) (10 ^ (-exponent).toNat)

theorem nearestDecimal_zero (exponent : Int) : nearestDecimal 0 exponent = 0 := by
  unfold nearestDecimal
  rw [Nat.zero_mul, Nat.zero_mul]
  exact nearest_eq_zero (by positivity) (Nat.zero_le _)

theorem nearestDecimal_neg (n k : Nat) :
    nearestDecimal n (-(k : Int)) = nearest (n * unitsPerOne) (10 ^ k) := by
  simp only [nearestDecimal, neg_neg, Int.toNat_natCast, Int.toNat_neg_natCast, pow_zero, mul_one]

theorem nearestDecimal_mul (n k : Nat) : nearestDecimal (n * 10 ^ k) 0 = nearestDecimal n k := by
  simp only [nearestDecimal, Int.toNat_zero, Int.toNat_natCast, Int.toNat_neg_natCast, neg_zero,
    pow_zero, mul_one]
  rw [Nat.mul_right_comm]

-- Below `10 ^ -330` there is nothing but zero to round to.
theorem nearestDecimal_of_small {size : Nat} {exponent : Int} (bounded : n < 10 ^ size)
    (small : size + exponent < -330) : nearestDecimal n exponent = 0 := by
  obtain ⟨k, rfl⟩ : ∃ k : Nat, exponent = -(k : Int) := ⟨(-exponent).toNat, by omega⟩
  have room : size + 330 ≤ k := by omega
  rw [nearestDecimal_neg]
  refine nearest_eq_zero (by positivity) ?_
  calc 2 * (n * unitsPerOne) ≤ 10 ^ size * (2 * unitsPerOne) := by
        rw [show 2 * (n * unitsPerOne) = n * (2 * unitsPerOne) by ring]
        exact Nat.mul_le_mul_right _ bounded.le
    _ ≤ 10 ^ size * 10 ^ 330 := Nat.mul_le_mul_left _ (by decide +kernel)
    _ = 10 ^ (size + 330) := (pow_add ..).symm
    _ ≤ 10 ^ k := Nat.pow_le_pow_right (by decide) room

-- From `10 ^ 310` on there is nothing but infinity.
theorem nearestDecimal_of_large {size : Nat} {exponent : Int} (bounded : 10 ^ size ≤ n)
    (large : 310 ≤ size + exponent) : nearestDecimal n exponent = infinityBits := by
  have room : 310 + (-exponent).toNat ≤ size + exponent.toNat := by omega
  unfold nearestDecimal
  refine nearest_eq_infinityBits (by positivity) ?_
  calc 2 ^ 2098 * 10 ^ (-exponent).toNat
      ≤ unitsPerOne * 10 ^ 310 * 10 ^ (-exponent).toNat :=
        Nat.mul_le_mul_right _ (by decide +kernel)
    _ = unitsPerOne * 10 ^ (310 + (-exponent).toNat) := by rw [pow_add, mul_assoc]
    _ ≤ unitsPerOne * 10 ^ (size + exponent.toNat) :=
        Nat.mul_le_mul_left _ (Nat.pow_le_pow_right (by decide) room)
    _ = 10 ^ size * unitsPerOne * 10 ^ exponent.toNat := by rw [pow_add]; ring
    _ ≤ n * unitsPerOne * 10 ^ exponent.toNat :=
        Nat.mul_le_mul_right _ (Nat.mul_le_mul_right _ bounded)

theorem magnitudeOf_eq_nearestDecimal (all : ∀ c ∈ digits, c.isDigit = true) (exponent : Int) :
    magnitudeOf digits exponent = nearestDecimal (natural digits) exponent := by
  rw [← natural_dropWhile]
  have leading : ∀ c ∈ (digits.dropWhile (· == '0')), c.isDigit = true :=
    fun c member => all c ((List.dropWhile_sublist _).subset member)
  have first : ∀ c rest, digits.dropWhile (· == '0') = c :: rest → c ≠ '0' := by
    intro c rest given zero
    have head := List.head_dropWhile_not (· == '0') (l := digits) (by simp [given])
    simp [given, zero] at head
  simp only [magnitudeOf]
  generalize digits.dropWhile (· == '0') = stripped at leading first ⊢
  cases stripped with
  | nil => exact (nearestDecimal_zero exponent).symm
  | cons c rest =>
    have digit := leading c List.mem_cons_self
    split_ifs with far near
    · exact (nearestDecimal_of_small (natural_lt leading) (by simpa using far)).symm
    · have apart : 10 ^ rest.length ≤ natural (c :: rest) := le_natural digit (first c rest rfl)
      refine (nearestDecimal_of_large apart ?_).symm
      simp only [List.length_cons] at near
      omega
    · rfl

end Magnitude

inductive Numeral : List Char → List Char → List Char → Prop
  | whole {digits : List Char} (given : digits ≠ []) (all : ∀ c ∈ digits, c.isDigit = true) :
    Numeral digits digits []
  | pointed {whole fraction : List Char} (given : whole ≠ [])
    (all : ∀ c ∈ whole, c.isDigit = true) (after : ∀ c ∈ fraction, c.isDigit = true) :
    Numeral (whole ++ '.' :: fraction) whole fraction

namespace Numeral

theorem decimal? (numeral : Numeral text whole fraction) :
    decimal? text = some (nearestDecimal (natural (whole ++ fraction)) (-fraction.length)) := by
  cases numeral with
  | whole given all =>
    simp [Decimal.decimal?, List.takeWhile_eq_self_iff.mpr all, List.dropWhile_eq_nil_iff.mpr all,
      given, exponent?, magnitudeOf_eq_nearestDecimal all]
  | pointed given all after =>
    have every : ∀ c ∈ whole ++ fraction, c.isDigit = true := by
      intro c member
      rcases List.mem_append.mp member with before | later
      · exact all c before
      · exact after c later
    have point : Char.isDigit '.' = false := rfl
    simp [Decimal.decimal?, List.takeWhile_append_of_pos all, List.dropWhile_append_of_pos all,
      List.takeWhile_eq_self_iff.mpr after, List.dropWhile_eq_nil_iff.mpr after, point,
      given, exponent?, magnitudeOf_eq_nearestDecimal every]

-- It starts with a digit.
theorem first (numeral : Numeral text whole fraction) :
    ∃ c rest, text = c :: rest ∧ c.isDigit = true := by
  have starts {digits : List Char} (given : digits ≠ [])
      (all : ∀ c ∈ digits, c.isDigit = true) (more : List Char) :
      ∃ c rest, digits ++ more = c :: rest ∧ c.isDigit = true := by
    obtain ⟨c, rest, rfl⟩ := List.exists_cons_of_ne_nil given
    exact ⟨c, rest ++ more, rfl, all c List.mem_cons_self⟩
  cases numeral with
  | whole given all => simpa using starts given all []
  | pointed given all after => exact starts given all _

end Numeral

theorem mem_digits (digit : c.isDigit = true) :
    c ∈ ['0', '1', '2', '3', '4', '5', '6', '7', '8', '9'] := by
  obtain ⟨low, high⟩ := toNat_of_isDigit digit
  rw [← Char.ofNat_toNat c]
  generalize c.toNat = code at low high ⊢
  interval_cases code <;> decide

theorem other_of_isDigit (digit : c.isDigit = true) :
    c ≠ '-' ∧ c ≠ '+' ∧ c.toLower ≠ 'i' ∧ c.toLower ≠ 'n' := by
  have every : ['0', '1', '2', '3', '4', '5', '6', '7', '8', '9'].all (fun c =>
      c ≠ '-' ∧ c ≠ '+' ∧ c.toLower ≠ 'i' ∧ c.toLower ≠ 'n') = true := by decide
  exact of_decide_eq_true (List.all_eq_true.mp every c (mem_digits digit))

theorem Numeral.readChars? (numeral : Numeral text whole fraction) :
    readChars? text = (Decimal.decimal? text).map (ofMagnitude false) ∧
      Decimal.readChars? ('-' :: text) = (Decimal.decimal? text).map (ofMagnitude true) := by
  obtain ⟨c, rest, rfl, digit⟩ := numeral.first
  obtain ⟨minus, plus, notInf, notNan⟩ := other_of_isDigit digit
  have unsigned : splitSign (c :: rest) = (false, c :: rest) := by
    unfold splitSign
    split
    · next same => exact absurd (List.cons.inj same).1 minus
    · next same => exact absurd (List.cons.inj same).1 plus
    · rfl
  have unnamed : named? (c :: rest) = none := by
    simp [named?, notInf, notNan]
  constructor
  · simp only [Decimal.readChars?, unsigned, unnamed]
    rfl
  · change (named? (c :: rest) <|> Decimal.decimal? (c :: rest)).map (ofMagnitude true) = _
    rw [unnamed]
    rfl

section Layout

theorem pointed_numeral {places : Nat} (positive : 0 < places)
    (all : ∀ c ∈ digits, c.isDigit = true) :
    ∃ whole fraction, Numeral (pointed places digits) whole fraction ∧
      natural (whole ++ fraction) = natural digits ∧ fraction.length = places := by
  have every : ∀ c ∈ zeros (places + 1 - digits.length) ++ digits, c.isDigit = true := by
    intro c member
    rcases List.mem_append.mp member with zero | given
    · rw [List.eq_of_mem_replicate zero]
      rfl
    · exact all c given
  have room : places < (zeros (places + 1 - digits.length) ++ digits).length := by
    simp only [zeros, List.length_append, List.length_replicate]
    omega
  have same := natural_zeros_append (places + 1 - digits.length) digits
  simp only [pointed, if_neg positive.ne']
  generalize zeros (places + 1 - digits.length) ++ digits = padded at every room same ⊢
  refine ⟨padded.take (padded.length - places), padded.drop (padded.length - places),
    .pointed ?_ ?_ ?_, ?_, ?_⟩
  · simp only [ne_eq, List.take_eq_nil_iff, not_or]
    exact ⟨by omega, List.ne_nil_of_length_pos (by omega)⟩
  · exact fun c member => every c (List.mem_of_mem_take member)
  · exact fun c member => every c (List.mem_of_mem_drop member)
  · rw [List.take_append_drop, same]
  · rw [List.length_drop]
    omega

theorem naturalText_digits (n : Nat) : ∀ c ∈ naturalText n, c.isDigit = true :=
  fun _ member => Nat.isDigit_of_mem_toDigits (by decide) (by decide) member

theorem positional_numeral (d : Digits) :
    ∃ whole fraction, Numeral (positional d) whole fraction ∧
      Decimal.decimal? (positional d) = some (nearestDecimal d.significand d.exponent) := by
  obtain ⟨k, exponent⟩ := d
  by_cases large : 0 ≤ exponent
  · obtain ⟨n, rfl⟩ := Int.eq_ofNat_of_zero_le large
    have laid : positional ⟨k, n⟩ = naturalText k ++ zeros n := by simp [positional]
    have numeral : Numeral (naturalText k ++ zeros n) (naturalText k ++ zeros n) [] := by
      refine .whole (by simp [naturalText, Nat.toDigits_ne_nil]) ?_
      intro c member
      rcases List.mem_append.mp member with given | zero
      · exact naturalText_digits k c given
      · rw [List.eq_of_mem_replicate zero]
        rfl
    refine ⟨_, _, laid ▸ numeral, ?_⟩
    rw [laid, numeral.decimal?, List.append_nil, natural_append_zeros, natural_naturalText]
    exact congrArg some (nearestDecimal_mul k n)
  · obtain ⟨n, rfl⟩ : ∃ n : Nat, exponent = -(n : Int) := ⟨(-exponent).toNat, by omega⟩
    have laid : positional ⟨k, -n⟩ = pointed n (naturalText k) := by
      simp only [positional, if_neg large, neg_neg, Int.toNat_natCast]
    obtain ⟨whole, fraction, numeral, same, places⟩ :=
      pointed_numeral (show 0 < n by omega) (naturalText_digits k)
    refine ⟨whole, fraction, laid ▸ numeral, ?_⟩
    rw [laid, numeral.decimal?, same, natural_naturalText, places]

end Layout

end PolishPlotter.Decimal
