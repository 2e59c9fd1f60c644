import PolishPlotter.Proofs.Controls.Coherent
import PolishPlotter.Proofs.Controls.Typing

set_option autoImplicit false

namespace PolishPlotter.Controls

open Machine

namespace Keypad

inductive Built : Keypad → Prop
  | empty : Built .empty
  | press {k : Keypad} (c : Char) (earlier : Built k) : Built (k.key c).2

structure InStep (k : Keypad) (e : Equation) : Prop where
  idle : k.inProgress = false → k.text = []
  typing : k.inProgress = true → ∃ front, e.instructions = front ++ [k.literal]

variable {k l : Keypad} {e f : Equation} {text keys : List Char} {c : Char} {negative : Bool}

theorem Built.type (built : k.Built) (typed : k.type e keys = .ok (l, f)) : l.Built := by
  induction keys generalizing k e with
  | nil =>
    cases typed
    exact built
  | cons c rest ih =>
    simp only [Keypad.type] at typed
    cases applied : (k.key c).1.apply e with
    | ok g =>
      rw [applied] at typed
      exact ih (.press c built) typed
    | error failure =>
      rw [applied] at typed
      cases typed

theorem Built.of_unsigned (digits : Unsigned text) : Built ⟨text, true⟩ :=
  Built.empty.type (type_unsigned (e := ⟨[], ⟨0, 0, 0⟩⟩) digits)

theorem Built.of_entry (entry : Entry text) : Built ⟨text, true⟩ := by
  cases entry with
  | positive digits => exact .of_unsigned digits
  | @negative text digits =>
    have pressed := Built.press sign (.of_unsigned digits)
    have signed : (key ⟨text, true⟩ sign).2 = ⟨toggleSign text, true⟩ := rfl
    rwa [signed, digits.toggleSign] at pressed

theorem Built.coherent (built : k.Built) : ∃ instructions, Coherent k instructions := by
  induction built with
  | empty => exact ⟨[], .idle []⟩
  | press c earlier ih =>
    obtain ⟨instructions, coherent⟩ := ih
    obtain ⟨f, -, next⟩ := Coherent.key (e := ⟨instructions, ⟨0, 0, 0⟩⟩) coherent c
    exact ⟨f.instructions, next⟩

theorem coherent_iff : Coherent k e.instructions ↔ k.Built ∧ k.InStep e := by
  constructor
  · intro coherent
    generalize shown : e.instructions = instructions at coherent
    cases coherent with
    | idle => exact ⟨.empty, fun _ => rfl, nofun⟩
    | typing entry front => exact ⟨.of_entry entry, nofun, fun _ => ⟨front, shown⟩⟩
  · rintro ⟨built, inStep⟩
    obtain ⟨other, coherent⟩ := built.coherent
    cases coherent with
    | idle => exact .idle e.instructions
    | typing entry =>
      obtain ⟨front, shown⟩ := inStep.typing rfl
      rw [shown]
      exact .typing entry front

section Steps

variable (e keys)

theorem popLast_during (text : List Char) : Edit.popLast.apply (during e text) = .ok e := by
  simp [Edit.apply, Equation.pop, Equation.append]

theorem type_sign (text : List Char) :
    type ⟨text, true⟩ (during e text) (sign :: keys) =
      type ⟨toggleSign text, true⟩ (during e (toggleSign text)) keys := by
  have pressed : key ⟨text, true⟩ sign =
      (.replaceLast (literal ⟨toggleSign text, true⟩), ⟨toggleSign text, true⟩) := rfl
  simp only [type, pressed, replaceLast_during]

theorem type_backspace (entry : Entry text) (c : Char) :
    type ⟨text ++ [c], true⟩ (during e (text ++ [c])) (backspace :: keys) =
      type ⟨text, true⟩ (during e text) keys := by
  have left : ¬(text = [] ∨ text = ['-']) := by
    rw [not_or]
    exact ⟨entry.ne_nil, entry.ne_sign⟩
  simp only [type, key_backspace, List.dropLast_concat, if_neg left, replaceLast_during]

theorem type_backspace_only (c : Char) :
    type ⟨[c], true⟩ (during e [c]) (backspace :: keys) = empty.type e keys := by
  have left : [c].dropLast = [] ∨ [c].dropLast = ['-'] := .inl rfl
  simp only [type, key_backspace, if_pos left, popLast_during]

end Steps

-- An equation that an entry is part of.
theorem exists_during {front : List Instruction}
    (shown : e.instructions = front ++ [.literal (value text)]) : ∃ f, e = during f text :=
  ⟨⟨front, e.color⟩, by cases e; simp_all [during, Equation.append]⟩

theorem fresh_of_taken (taken : (k.key c).1 ≠ .none) : c = '.' → '.' ∉ k.text := by
  rintro rfl member
  have ignored : k.key '.' = (.none, k) := by simp [key, member]
  rw [ignored] at taken
  exact taken rfl

theorem type_undone (coherent : Coherent k e.instructions)
    (plain : c.isDigit = true ∨ c = '.') (taken : (k.key c).1 ≠ .none) :
    k.type e [c, backspace] = .ok (k, e) := by
  generalize shown : e.instructions = instructions at coherent
  cases coherent with
  | idle =>
    rw [type_first plain, type_backspace_only]
    rfl
  | typing entry front =>
    obtain ⟨f, rfl⟩ := exists_during shown
    rw [type_digit plain (fresh_of_taken taken), type_backspace _ _ entry]
    rfl

theorem toggleSign_toggleSign (entry : Entry text) : toggleSign (toggleSign text) = text := by
  cases entry with
  | positive digits => rw [digits.toggleSign]; rfl
  | negative digits => exact digits.toggleSign

theorem type_signs (coherent : Coherent k e.instructions) (inProgress : k.inProgress = true) :
    k.type e [sign, sign] = .ok (k, e) := by
  generalize shown : e.instructions = instructions at coherent
  cases coherent with
  | idle => cases inProgress
  | typing entry front =>
    obtain ⟨f, rfl⟩ := exists_during shown
    rw [type_sign, type_sign, toggleSign_toggleSign entry]
    rfl

-- The last key is taken back first.
theorem type_backspaces (digits : Unsigned text) (e : Equation) :
    type ⟨text, true⟩ (during e text) (.replicate text.length backspace) = .ok (.empty, e) := by
  induction text using List.reverseRecOn with
  | nil => exact absurd rfl digits.given
  | append_singleton front c ih =>
    rw [List.length_append, List.length_singleton, List.replicate_succ]
    by_cases first : front = []
    · subst first
      exact type_backspace_only e [] c
    · have shorter : Unsigned front := by
        simpa using digits.dropLast (by simpa using first)
      rw [type_backspace _ _ (.positive shorter)]
      exact ih shorter

def signed (negative : Bool) (text : List Char) : List Char :=
  if negative then '-' :: text else text

theorem toggleSign_signed (digits : Unsigned text) (negative : Bool) :
    toggleSign (signed negative text) = signed (!negative) text := by
  cases negative with
  | false => exact digits.toggleSign
  | true => rfl

theorem signed_append (negative : Bool) (text rest : List Char) :
    signed negative text ++ rest = signed negative (text ++ rest) := by
  cases negative <;> rfl

-- Whether a number is negative after some keys.
def turned (negative : Bool) (keys : List Char) : Bool := negative ^^ keys.count sign % 2 == 1

theorem turned_sign (negative : Bool) (keys : List Char) :
    turned negative (sign :: keys) = turned (!negative) keys := by
  have flips : ((keys.count sign + 1) % 2 == 1) = !(keys.count sign % 2 == 1) := by
    rcases Nat.mod_two_eq_zero_or_one (keys.count sign) with even | odd
    · simp [Nat.add_mod, even]
    · simp [Nat.add_mod, odd]
  simp [turned, flips]

theorem type_signed (given : Unsigned text)
    (digits : Unsigned (text ++ keys.filter (· ≠ sign))) (e : Equation) (negative : Bool) :
    type ⟨signed negative text, true⟩ (during e (signed negative text)) keys =
      .ok (⟨signed (turned negative keys) (text ++ keys.filter (· ≠ sign)), true⟩,
        during e (signed (turned negative keys) (text ++ keys.filter (· ≠ sign)))) := by
  induction keys generalizing text negative with
  | nil => simp [type, turned]
  | cons c rest ih =>
    by_cases isSign : c = sign
    · subst isSign
      have others : (sign :: rest).filter (· ≠ sign) = rest.filter (· ≠ sign) := by simp
      rw [others] at digits ⊢
      rw [type_sign, toggleSign_signed given, turned_sign]
      exact ih given digits (!negative)
    · have others : text ++ (c :: rest).filter (· ≠ sign) =
          text ++ [c] ++ rest.filter (· ≠ sign) := by simp [isSign]
      have same : turned negative (c :: rest) = turned negative rest := by
        simp [turned, isSign]
      have fresh : c = '.' → '.' ∉ signed negative text := by
        intro point member
        cases negative with
        | false => exact digits.fresh others point member
        | true => exact digits.fresh others point (by simpa [signed] using member)
      have plain := digits.plain c (by simp [isSign])
      rw [others] at digits ⊢
      rw [type_digit plain fresh, signed_append, same]
      exact ih (given.append plain (digits.fresh rfl)) digits negative

theorem turned_of_even (even : keys.count sign % 2 = 0) : turned false keys = false := by
  simp [turned, even]

theorem number_undone (plain : ∀ c ∈ text, c.isDigit = true ∨ c = '.') (point : text.count '.' ≤ 1)
    (e : Equation) :
    ∃ l f, empty.type e text = .ok (l, f) ∧
      l.type f (.replicate text.length backspace) = .ok (.empty, e) ∧
      ∀ first keys, text = first :: keys.filter (· ≠ sign) → keys.count sign % 2 = 0 →
        empty.type e (first :: keys) = .ok (l, f) := by
  by_cases none : text = []
  · subst none
    exact ⟨empty, e, rfl, rfl, nofun⟩
  · have digits : Unsigned text := ⟨none, plain, point⟩
    refine ⟨⟨text, true⟩, during e text, type_unsigned digits, type_backspaces digits e, ?_⟩
    rintro first keys rfl even
    have start : first.isDigit = true ∨ first = '.' := plain first List.mem_cons_self
    have typed := type_signed (Unsigned.single start) digits e false
    rw [turned_of_even even] at typed
    rw [type_first start]
    exact typed

end Keypad

end PolishPlotter.Controls
