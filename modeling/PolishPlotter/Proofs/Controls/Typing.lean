import PolishPlotter.Proofs.Controls.Entry
import PolishPlotter.Proofs.Decimal.Shortest

set_option autoImplicit false

namespace PolishPlotter.Controls

open Machine

def Equation.append (e : Equation) (instructions : List Instruction) : Equation :=
  { e with instructions := e.instructions ++ instructions }

@[simp] theorem Equation.append_nil (e : Equation) : e.append [] = e := by
  simp [append]

@[simp] theorem Equation.append_append (e : Equation) (front back : List Instruction) :
    (e.append front).append back = e.append (front ++ back) := by
  simp [append]

variable {e : Equation} {text rest : List Char} {c : Char}

theorem Unsigned.of_numeral {whole fraction : List Char}
    (numeral : Decimal.Numeral text whole fraction) : Unsigned text := by
  have digits {run : List Char} (all : ∀ c ∈ run, c.isDigit = true) : '.' ∉ run :=
    fun member => absurd (all '.' member) (by decide)
  cases numeral with
  | whole given all =>
    exact ⟨given, fun c member => .inl (all c member),
      by simp [List.count_eq_zero.mpr (digits all)]⟩
  | pointed given all after =>
    refine ⟨by simp, ?_, ?_⟩
    · intro c member
      rcases List.mem_append.mp member with before | later
      · exact .inl (all c before)
      · rcases List.mem_cons.mp later with point | fraction
        · exact .inr point
        · exact .inl (after c fraction)
    · simp [List.count_eq_zero.mpr (digits all), List.count_eq_zero.mpr (digits after)]

-- The point of a text cannot come a second time.
theorem Unsigned.fresh (digits : Unsigned text) {front : List Char}
    (split : text = front ++ [c] ++ rest) : c = '.' → '.' ∉ front := by
  rintro rfl member
  have once := digits.point
  have before := List.count_pos_iff.mpr member
  rw [split, List.count_append, List.count_append, List.count_singleton_self] at once
  omega

namespace Keypad

variable {k : Keypad}

theorem key_eq_digit (plain : c.isDigit = true ∨ c = '.') (fresh : c = '.' → '.' ∉ k.text) :
    k.key c = k.digit c := by
  rcases plain with digit | rfl
  · simp [key, digit]
  · simp [key, fresh rfl]

-- The equation with the literal of an entry after it.
abbrev during (e : Equation) (text : List Char) : Equation := e.append [.literal (value text)]

-- The literal of an entry gives way to that of another text.
theorem replaceLast_during (e : Equation) (text other : List Char) :
    (Edit.replaceLast (literal ⟨other, true⟩)).apply (during e text) = .ok (during e other) := by
  simp [Edit.apply, Equation.replaceLast, Equation.append, literal, Instruction.isNoop]

theorem type_first (plain : c.isDigit = true ∨ c = '.') (e : Equation) (keys : List Char) :
    empty.type e (c :: keys) = type ⟨[c], true⟩ (during e [c]) keys := by
  have pressed : key empty c = digit empty c := key_eq_digit plain (by simp [empty])
  simp only [type, pressed]
  rfl

theorem type_digit (plain : c.isDigit = true ∨ c = '.') (fresh : c = '.' → '.' ∉ text)
    (e : Equation) (keys : List Char) :
    type ⟨text, true⟩ (during e text) (c :: keys) =
      type ⟨text ++ [c], true⟩ (during e (text ++ [c])) keys := by
  have pressed : key ⟨text, true⟩ c = digit ⟨text, true⟩ c := key_eq_digit plain fresh
  simp only [type, pressed, digit, if_true, replaceLast_during]

-- A later digit replaces the literal that the ones before it have pushed.
theorem type_more (digits : Unsigned (text ++ rest)) :
    type ⟨text, true⟩ (during e text) rest = .ok (⟨text ++ rest, true⟩, during e (text ++ rest)) := by
  induction rest generalizing text with
  | nil => simp [type]
  | cons c rest ih =>
    have split : text ++ c :: rest = text ++ [c] ++ rest := by simp
    rw [type_digit (digits.plain c (by simp)) (digits.fresh split) e rest, split]
    exact ih (split ▸ digits)

theorem type_unsigned (digits : Unsigned text) :
    empty.type e text = .ok (⟨text, true⟩, e.append [.literal (value text)]) := by
  cases text with
  | nil => exact absurd rfl digits.given
  | cons c rest =>
    rw [type_first (digits.plain c (by simp)) e rest]
    exact type_more digits

theorem value_of_readChars? {v : Float} (read : Decimal.readChars? text = some v) :
    value text = v := by
  unfold value
  split
  · cases read
  · cases read
  · cases read
  · rw [read]
    rfl

end Keypad

end PolishPlotter.Controls
