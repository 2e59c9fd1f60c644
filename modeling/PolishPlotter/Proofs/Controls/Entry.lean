import Mathlib.Data.List.Infix
import Mathlib.Data.List.TakeWhile
import PolishPlotter.Controls.Keypad

set_option autoImplicit false

namespace PolishPlotter.Controls

open Machine

structure Unsigned (text : List Char) : Prop where
  given : text ≠ []
  plain : ∀ c ∈ text, c.isDigit = true ∨ c = '.'
  point : text.count '.' ≤ 1

inductive Entry : List Char → Prop
  | positive {text : List Char} (digits : Unsigned text) : Entry text
  | negative {text : List Char} (digits : Unsigned text) : Entry ('-' :: text)

namespace Unsigned

variable {text : List Char} {c : Char}

theorem single (plain : c.isDigit = true ∨ c = '.') : Unsigned [c] where
  given := by simp
  plain := by simpa using plain
  point := by
    have length := List.count_le_length (a := '.') (l := [c])
    simpa using length

theorem append (digits : Unsigned text) (plain : c.isDigit = true ∨ c = '.')
    (fresh : c = '.' → '.' ∉ text) : Unsigned (text ++ [c]) where
  given := by simp
  plain := by
    intro d member
    rcases List.mem_append.mp member with before | last
    · exact digits.plain d before
    · rw [List.mem_singleton.mp last]
      exact plain
  point := by
    have once := digits.point
    rw [List.count_append]
    by_cases isPoint : c = '.'
    · subst isPoint
      have absent := List.count_eq_zero.mpr (fresh rfl)
      simp [absent]
    · simpa [List.count_singleton, isPoint] using once

theorem dropLast (digits : Unsigned text) (given : text.dropLast ≠ []) :
    Unsigned text.dropLast where
  given := given
  plain c member := digits.plain c (List.mem_of_mem_dropLast member)
  point := Nat.le_trans ((List.dropLast_sublist text).count_le '.') digits.point

theorem sign_not_mem (digits : Unsigned text) : '-' ∉ text := by
  intro member
  rcases digits.plain '-' member with digit | point
  · exact absurd digit (by decide)
  · exact absurd point (by decide)

theorem toggleSign (digits : Unsigned text) : Keypad.toggleSign text = '-' :: text := by
  cases text with
  | nil => rfl
  | cons c rest =>
    have other : c ≠ '-' := by
      intro same
      rw [same] at digits
      exact digits.sign_not_mem List.mem_cons_self
    unfold Keypad.toggleSign
    split
    · next same => exact absurd (List.cons.inj same).1 other
    · rfl

theorem splitSign (digits : Unsigned text) : Decimal.splitSign text = (false, text) := by
  unfold Decimal.splitSign
  split
  · exact absurd List.mem_cons_self digits.sign_not_mem
  · rename_i rest
    rcases digits.plain '+' List.mem_cons_self with digit | point
    · exact absurd digit (by decide)
    · exact absurd point (by decide)
  · rfl

-- The reading stops at the point, goes on after it, and then finds no exponent.
theorem decimal?_isSome (digits : Unsigned text) (some_digit : text ≠ ['.']) :
    (Decimal.decimal? text).isSome := by
  have whole := List.takeWhile_append_dropWhile (p := Char.isDigit) (l := text)
  unfold Decimal.decimal?
  cases rest : text.dropWhile Char.isDigit with
  | nil =>
    rw [rest, List.append_nil] at whole
    simp [whole, digits.given, Decimal.exponent?]
  | cons c fraction =>
    rw [rest] at whole
    have member : c ∈ text := by
      rw [← whole]
      simp
    have stopped : c.isDigit = false := by
      have remains : text.dropWhile Char.isDigit ≠ [] := by simp [rest]
      have head := List.head_dropWhile_not Char.isDigit remains
      simpa [rest] using head
    have point : c = '.' := by
      rcases digits.plain c member with digit | point
      · rw [stopped] at digit
        cases digit
      · exact point
    subst point
    have absent : '.' ∉ fraction := by
      have once := digits.point
      rw [← whole, List.count_append, List.count_cons_self] at once
      exact List.count_eq_zero.mp (by omega)
    have onlyDigits : ∀ d ∈ fraction, d.isDigit = true := by
      intro d inside
      rcases digits.plain d (by rw [← whole]; simp [inside]) with digit | same
      · exact digit
      · exact absurd (same ▸ inside) absent
    have read : ¬(text.takeWhile Char.isDigit = [] ∧ fraction = []) := by
      intro neither
      obtain ⟨noWhole, noFraction⟩ := neither
      rw [noWhole, noFraction] at whole
      exact some_digit whole.symm
    generalize text.takeWhile Char.isDigit = before at read
    simp [List.takeWhile_eq_self_iff.mpr onlyDigits, List.dropWhile_eq_nil_iff.mpr onlyDigits,
      Decimal.exponent?, read]

theorem readChars?_isSome (digits : Unsigned text) (some_digit : text ≠ ['.']) :
    (Decimal.readChars? text).isSome ∧ (Decimal.readChars? ('-' :: text)).isSome := by
  obtain ⟨magnitude, read⟩ := Option.isSome_iff_exists.mp (digits.decimal?_isSome some_digit)
  unfold Decimal.readChars?
  rw [digits.splitSign, Decimal.splitSign]
  simp only [read]
  cases Decimal.named? text <;> exact ⟨rfl, rfl⟩

end Unsigned

namespace Entry

variable {text : List Char} {c : Char}

theorem ne_nil (entry : Entry text) : text ≠ [] := by
  cases entry with
  | positive digits => exact digits.given
  | negative digits => simp

theorem ne_sign (entry : Entry text) : text ≠ ['-'] := by
  rintro rfl
  cases entry with
  | positive digits => exact digits.sign_not_mem List.mem_cons_self
  | negative digits => exact digits.given rfl

theorem single (plain : c.isDigit = true ∨ c = '.') : Entry [c] := .positive (.single plain)

theorem append (entry : Entry text) (plain : c.isDigit = true ∨ c = '.')
    (fresh : c = '.' → '.' ∉ text) : Entry (text ++ [c]) := by
  cases entry with
  | positive digits => exact .positive (digits.append plain fresh)
  | negative digits =>
    refine .negative (digits.append plain ?_)
    intro isPoint member
    exact fresh isPoint (List.mem_cons_of_mem _ member)

theorem toggleSign (entry : Entry text) : Entry (Keypad.toggleSign text) := by
  cases entry with
  | positive digits =>
    rw [digits.toggleSign]
    exact .negative digits
  | negative digits => exact .positive digits

-- What backspace leaves is an entry again, or at most a sign.
theorem dropLast (entry : Entry text) (given : text.dropLast ≠ [])
    (unsigned : text.dropLast ≠ ['-']) : Entry text.dropLast := by
  cases entry with
  | positive digits => exact .positive (digits.dropLast given)
  | @negative text digits =>
    rw [List.dropLast_cons_of_ne_nil digits.given] at unsigned ⊢
    refine .negative (digits.dropLast ?_)
    intro none_left
    exact unsigned (by rw [none_left])

theorem value_of_point (point : text = ['.'] ∨ text = ['-', '.']) : Keypad.value text = 0 := by
  rcases point with rfl | rfl <;> rfl

theorem readChars?_eq_value (entry : Entry text) (bare : text ≠ ['.'])
    (signed : text ≠ ['-', '.']) : Decimal.readChars? text = some (Keypad.value text) := by
  have reads : (Decimal.readChars? text).isSome := by
    cases entry with
    | positive digits => exact (digits.readChars?_isSome bare).1
    | negative digits =>
      refine (digits.readChars?_isSome ?_).2
      intro same
      exact signed (by rw [same])
  obtain ⟨v, read⟩ := Option.isSome_iff_exists.mp reads
  unfold Keypad.value
  split
  · exact absurd rfl bare
  · exact absurd rfl signed
  · cases entry with
    | positive digits => exact absurd List.mem_cons_self digits.sign_not_mem
    | negative digits => exact absurd rfl digits.given
  · rw [read]
    rfl

end Entry

end PolishPlotter.Controls
