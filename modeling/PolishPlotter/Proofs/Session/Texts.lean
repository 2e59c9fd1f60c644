import PolishPlotter.Proofs.Decimal.Numeral
import PolishPlotter.Proofs.Machine.Depth
import PolishPlotter.Proofs.Screen.Lines
import PolishPlotter.Proofs.Session.Coherence
import PolishPlotter.Proofs.Session.WellFormed
import PolishPlotter.Session.Frame

set_option autoImplicit false

namespace PolishPlotter

open Controls Machine Screen

namespace Screen.Plain

variable {c : Char} {digits : List Char} {text : String}

theorem ne_of_numeric (numeric : c.isDigit = true ∨ c = '.') : c ≠ '\n' ∧ c ≠ '\x1b' := by
  cases numeric with
  | inl digit => constructor <;> rintro rfl <;> cases digit
  | inr point =>
    subst point
    decide

theorem ofList (all : ∀ c ∈ digits, c.isDigit = true ∨ c = '.') : Plain (.ofList digits) := by
  intro c member
  rw [String.toList_ofList] at member
  exact ne_of_numeric (all c member)

theorem ofList_negative (all : ∀ c ∈ digits, c.isDigit = true ∨ c = '.') :
    Plain (.ofList ('-' :: digits)) := by
  intro c member
  rw [String.toList_ofList] at member
  cases List.mem_cons.mp member with
  | inl sign =>
    subst sign
    decide
  | inr later => exact ne_of_numeric (all c later)

theorem naturalText_numeric (n : Nat) :
    ∀ c ∈ Decimal.naturalText n, c.isDigit = true ∨ c = '.' :=
  fun c member => .inl (Decimal.naturalText_digits n c member)

theorem zeros_numeric (n : Nat) : ∀ c ∈ Decimal.zeros n, c.isDigit = true ∨ c = '.' := by
  intro c member
  rw [List.eq_of_mem_replicate member]
  exact .inl rfl

theorem pointed_numeric (places : Nat) (all : ∀ c ∈ digits, c.isDigit = true ∨ c = '.') :
    ∀ c ∈ Decimal.pointed places digits, c.isDigit = true ∨ c = '.' := by
  have every := List.forall_mem_append.mpr ⟨zeros_numeric (places + 1 - digits.length), all⟩
  simp only [Decimal.pointed]
  generalize Decimal.zeros (places + 1 - digits.length) ++ digits = padded at every ⊢
  split_ifs
  · exact every
  · refine List.forall_mem_append.mpr ⟨fun c member => every c (List.mem_of_mem_take member), ?_⟩
    refine List.forall_mem_cons.mpr ⟨.inr rfl, ?_⟩
    exact fun c member => every c (List.mem_of_mem_drop member)

theorem positional_numeric (d : Decimal.Digits) :
    ∀ c ∈ Decimal.positional d, c.isDigit = true ∨ c = '.' := by
  unfold Decimal.positional
  split_ifs
  · exact List.forall_mem_append.mpr ⟨naturalText_numeric _, zeros_numeric _⟩
  · exact pointed_numeric _ (naturalText_numeric _)

theorem signed {finite : Nat → List Char}
    (numeric : ∀ bits, ∀ c ∈ finite bits, c.isDigit = true ∨ c = '.') (x : Float) :
    Plain (Decimal.signed finite x) := by
  simp only [Decimal.signed]
  split_ifs
  · simp [Plain]
  · simp [Plain]
  · exact ofList_negative (numeric _)
  · simp [Plain]
  · exact ofList (numeric _)

theorem number (x : Float) : Plain (Decimal.plain x) := by
  refine signed (fun bits => ?_) x
  split_ifs
  · exact List.forall_mem_singleton.mpr (.inl rfl)
  · exact positional_numeric _

theorem fixed (places : Nat) (x : Float) : Plain (Decimal.fixed places x) :=
  signed (fun _ => pointed_numeric places (naturalText_numeric _)) x

theorem entry (entry : Entry digits) : Plain (.ofList digits) := by
  cases entry with
  | positive unsigned => exact ofList unsigned.plain
  | negative unsigned => exact ofList_negative unsigned.plain

end Screen.Plain

namespace Machine

variable {limit : Nat} {instructions : List Instruction} {i : Instruction} {e : Error}

def structuralErrors : List Error := [.underflow, .overflow, .noResult, .noopReached]

theorem shape_structural (failed : shape limit instructions = some e) : e ∈ structuralErrors := by
  unfold shape at failed
  cases result : depthRun limit 0 instructions with
  | error f =>
    rw [result] at failed
    cases failed
    have all : stepErrors ⊆ structuralErrors := by decide
    exact all (depthRun_error result)
  | ok depth =>
    rw [result] at failed
    cases depth with
    | zero =>
      cases failed
      simp [structuralErrors]
    | succ depth => cases failed

theorem plain_message (structural : e ∈ structuralErrors) : Plain e.message := by
  have all : ∀ e ∈ structuralErrors, Plain e.message := by
    simp [structuralErrors, Error.underflow, Error.overflow, Error.noResult, Error.noopReached,
      Error.plain, Error.message, Code.text, Plain]
  exact all e structural

theorem plain_text {vars : Vars} (names : vars.names = ["x", "a", "b", "c", "d"])
    (bound : i.Bound vars) : Plain i.text := by
  cases bound with
  | literal v => exact .number v
  | @push var found =>
    have listed : var.name ∈ ["x", "a", "b", "c", "d"] := by
      rw [← names]
      exact List.mem_of_getElem? (Vars.lookup?_eq_some found).2
    have all : ∀ name ∈ ["x", "a", "b", "c", "d"], Plain name := by simp [Plain]
    exact all _ listed
  | binary op => cases op <;> simp [Instruction.text, BinaryOp.label, Plain]
  | neg | dup => simp [Instruction.text, Plain]
  | @apply f found =>
    have listed : f.name ∈ Function.names := by
      rw [Function.names_eq]
      exact List.mem_map_of_mem (List.mem_of_find?_eq_some found)
    have all : ∀ name ∈ Function.names, Plain name := by simp [Function.names, Plain]
    exact all _ listed

end Machine

end PolishPlotter
