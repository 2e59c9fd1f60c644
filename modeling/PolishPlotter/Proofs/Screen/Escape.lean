import Mathlib
import PolishPlotter.Screen.Paint

set_option autoImplicit false

namespace PolishPlotter.Screen

-- Where a terminal is in what it reads.
inductive Reading
  | text
  | escape
  | parameters

-- The last character of a sequence, after its parameters.
def endsSequence (c : Char) : Bool := '@' ≤ c && c ≤ '~'

def shown : Reading → List Char → List Char
  | _, [] => []
  | .text, c :: rest => if c = '\x1b' then shown .escape rest else c :: shown .text rest
  | .escape, c :: rest => if c = '[' then shown .parameters rest else shown .text rest
  | .parameters, c :: rest =>
    if endsSequence c then shown .text rest else shown .parameters rest

def isParameter (c : Char) : Bool := ' ' ≤ c && c ≤ '?'

def IsSequence (text : String) : Prop :=
  ∃ (parameters : List Char) (last : Char),
    text.toList = '\x1b' :: '[' :: (parameters ++ [last]) ∧
      (∀ c ∈ parameters, isParameter c) ∧ endsSequence last

/-- One escape sequence stands before the text, and one after it. -/
def Wrapped (text painted : String) : Prop :=
  ∃ opening closing, IsSequence opening ∧ IsSequence closing ∧ painted = opening ++ text ++ closing

structure Paint.Wraps (paint : Paint) : Prop where
  colored (color : Color) (text : String) : Wrapped text (paint.colored color text)
  bold (text : String) : Wrapped text (paint.bold text)

variable {front : List Char} {c : Char} {parameters text painted : String}

theorem endsSequence_of_isParameter (inner : isParameter c) : endsSequence c = false := by
  have most : c ≤ '?' := (Bool.and_eq_true_iff.mp inner).2 |> of_decide_eq_true
  have below : ¬ '@' ≤ c := fun least => absurd (Char.le_trans least most) (by decide)
  simp [endsSequence, below]

theorem shown_plain (plain : ∀ c ∈ front, c ≠ '\x1b') (back : List Char) :
    shown .text (front ++ back) = front ++ shown .text back := by
  induction front with
  | nil => rfl
  | cons c rest ih =>
    obtain ⟨first, later⟩ := List.forall_mem_cons.mp plain
    rw [List.cons_append, shown, if_neg first, ih later, List.cons_append]

theorem shown_parameters (inner : ∀ c ∈ front, isParameter c) (ends : endsSequence c)
    (back : List Char) : shown .parameters (front ++ c :: back) = shown .text back := by
  induction front with
  | nil => rw [List.nil_append, shown, if_pos ends]
  | cons first rest ih =>
    obtain ⟨one, later⟩ := List.forall_mem_cons.mp inner
    rw [List.cons_append, shown, endsSequence_of_isParameter one, if_neg Bool.false_ne_true,
      ih later]

namespace IsSequence

theorem shown (sequence : IsSequence text) (back : List Char) :
    shown .text (text.toList ++ back) = shown .text back := by
  obtain ⟨parameters, last, same, inner, ends⟩ := sequence
  rw [same, List.cons_append, List.cons_append, List.append_assoc]
  exact shown_parameters inner ends back

theorem whole (sequence : IsSequence text) : '\n' ∉ text.toList := by
  obtain ⟨parameters, last, same, inner, ends⟩ := sequence
  rw [same, List.mem_cons, List.mem_cons, List.mem_append, List.mem_singleton]
  rintro (first | second | inside | final)
  · cases first
  · cases second
  · cases inner _ inside
  · subst final
    cases ends

theorem rendition (inner : ∀ c ∈ parameters.toList, isParameter c) :
    IsSequence (Paint.rendition parameters) := by
  refine ⟨parameters.toList, 'm', ?_, inner, rfl⟩
  rw [Paint.rendition, String.toList_append, String.toList_append]
  rfl

end IsSequence

theorem Wrapped.shown (wrapped : Wrapped text painted) (plain : ∀ c ∈ text.toList, c ≠ '\x1b')
    (back : List Char) :
    shown .text (painted.toList ++ back) = text.toList ++ shown .text back := by
  obtain ⟨opening, closing, first, last, rfl⟩ := wrapped
  rw [String.toList_append, String.toList_append, List.append_assoc, List.append_assoc,
    first.shown, shown_plain plain, last.shown]

theorem Wrapped.whole (wrapped : Wrapped text painted) (own : '\n' ∉ text.toList) :
    '\n' ∉ painted.toList := by
  obtain ⟨opening, closing, first, last, rfl⟩ := wrapped
  simp [own, first.whole, last.whole]

namespace Paint

theorem isParameter_of_mem_toString {n : UInt8} (member : c ∈ (toString n).toList) :
    isParameter c := by
  change c ∈ (Nat.repr n.toNat).toList at member
  rw [Nat.toList_repr] at member
  obtain ⟨least, most⟩ :=
    Char.isDigit_iff_toNat.mp (Nat.isDigit_of_mem_toDigits (by decide) (by decide) member)
  have above : ' ' ≤ c := Char.le_trans (by decide) (show '0' ≤ c from least)
  have below : c ≤ '?' := Char.le_trans (show c ≤ '9' from most) (by decide)
  simp [isParameter, above, below]

theorem wrapped_painted (inner : ∀ c ∈ parameters.toList, isParameter c) (text : String) :
    Wrapped text (Paint.painted parameters text) :=
  ⟨_, _, .rendition inner, .rendition (by simp [isParameter]), rfl⟩

theorem ansi_wraps : ansi.Wraps where
  colored color text := by
    have prefixed : ∀ c ∈ "38;2;".toList, isParameter c := by simp [isParameter]
    have separated : ∀ c ∈ ";".toList, isParameter c := by simp [isParameter]
    refine wrapped_painted ?_ text
    simp only [String.toList_append, List.forall_mem_append]
    exact ⟨⟨⟨⟨⟨prefixed, fun _ => isParameter_of_mem_toString⟩, separated⟩,
      fun _ => isParameter_of_mem_toString⟩, separated⟩, fun _ => isParameter_of_mem_toString⟩
  bold := wrapped_painted (by simp [isParameter])

end Paint

end PolishPlotter.Screen
