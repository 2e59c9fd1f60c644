import PolishPlotter.Proofs.Json.Strings

set_option autoImplicit false

namespace PolishPlotter.Json

open Decimal (splitSign isExponentMark)

variable {c : Char} {ds left sign fraction exponent amount s : List Char}

inductive Follows : List Char → Prop
  | blank {c : Char} {s : List Char} (blank : isBlank c = true) : Follows (c :: s)
  | mark {c : Char} {s : List Char} (mark : c ∈ [',', ']', '\x7d']) : Follows (c :: s)

theorem Follows.head (follows : Follows (c :: s)) :
    c.isDigit = false ∧ isExponentMark c = false ∧ c ≠ '.' := by
  cases follows with
  | blank blank =>
    simp only [isBlank, Bool.or_eq_true, decide_eq_true_eq] at blank
    rcases blank with ((rfl | rfl) | rfl) | rfl <;> decide
  | mark mark =>
    simp only [List.mem_cons, List.not_mem_nil, or_false] at mark
    rcases mark with rfl | rfl | rfl <;> decide

theorem Follows.startsWithDigit (follows : Follows s) : Json.startsWithDigit s = false := by
  cases s with
  | nil => rfl
  | cons c s => exact follows.head.1

theorem isDigit_of_isExponentMark (marks : isExponentMark c = true) : c.isDigit = false := by
  simp only [isExponentMark, Bool.or_eq_true, decide_eq_true_eq] at marks
  rcases marks with rfl | rfl <;> decide

theorem ne_point_of_isExponentMark (marks : isExponentMark c = true) : c ≠ '.' := by
  rintro rfl
  cases marks

section Digits

variable (digits : ∀ d ∈ ds, d.isDigit = true) (ends : startsWithDigit s = false)

include digits ends

theorem dropWhile_digits : (ds ++ s).dropWhile Char.isDigit = s := by
  rw [List.dropWhile_append_of_pos digits]
  cases s with
  | nil => rfl
  | cons c s => rw [List.dropWhile_cons_of_neg (by simpa [startsWithDigit] using ends)]

theorem takeWhile_digits : (ds ++ s).takeWhile Char.isDigit = ds := by
  rw [List.takeWhile_append_of_pos digits]
  cases s with
  | nil => rw [List.takeWhile_nil, List.append_nil]
  | cons c s => rw [List.takeWhile_cons_of_neg (by simpa [startsWithDigit] using ends), List.append_nil]

end Digits

theorem Digits.starts (digits : Digits ds) (s : List Char) : startsWithDigit (ds ++ s) = true := by
  obtain ⟨nonempty, digits⟩ := digits
  cases ds with
  | nil => exact absurd rfl nonempty
  | cons d ds => exact digits d (List.mem_cons_self ..)

theorem Digits.ne_zero_cons (digits : Digits ds) (leading : ds.head? ≠ some '0') (s t : List Char) :
    ds ++ s ≠ '0' :: t := by
  obtain ⟨nonempty, -⟩ := digits
  cases ds with
  | nil => exact absurd rfl nonempty
  | cons d ds =>
    rintro same
    cases same
    exact leading rfl

theorem Exponent.startsWithDigit (form : Exponent exponent) (follows : Follows s) :
    Json.startsWithDigit (exponent ++ s) = false := by
  cases form with
  | none => exact follows.startsWithDigit
  | digits marks => exact isDigit_of_isExponentMark marks

theorem Fraction.startsWithDigit (form : Fraction fraction) (third : Exponent exponent)
    (follows : Follows s) : Json.startsWithDigit (fraction ++ (exponent ++ s)) = false := by
  cases form with
  | none => exact third.startsWithDigit follows
  | digits digits => rfl

theorem splitSign_digits (signs : sign ∈ [[], ['-'], ['+']]) (digits : Digits ds) :
    ∃ down, ∀ s, splitSign (sign ++ (ds ++ s)) = (down, ds ++ s) := by
  simp only [List.mem_cons, List.not_mem_nil, or_false] at signs
  rcases signs with rfl | rfl | rfl
  · obtain ⟨nonempty, digits⟩ := digits
    cases ds with
    | nil => exact absurd rfl nonempty
    | cons d ds =>
      have first := digits d (List.mem_cons_self ..)
      have minus : d ≠ '-' := by rintro rfl; cases first
      have plus : d ≠ '+' := by rintro rfl; cases first
      exact ⟨false, fun s => by simp [splitSign, minus, plus]⟩
  · exact ⟨true, fun _ => rfl⟩
  · exact ⟨false, fun _ => rfl⟩

namespace Number

theorem skipExponent_append (signs : sign ∈ [[], ['-'], ['+']]) (digits : Digits ds)
    (ends : startsWithDigit s = false) : skipExponent (sign ++ (ds ++ s)) = .ok s := by
  obtain ⟨down, splits⟩ := splitSign_digits signs digits
  simp only [skipExponent, splits, digits.starts, if_true, dropWhile_digits digits.digits ends]

theorem skipFraction_append (digits : Digits ds) (form : Exponent exponent) (follows : Follows s) :
    skipFraction (ds ++ (exponent ++ s)) = .ok s := by
  have ends := form.startsWithDigit follows
  simp only [skipFraction, digits.starts, if_true, dropWhile_digits digits.digits ends]
  cases form with
  | none =>
    cases s with
    | nil => rfl
    | cons c s => simp [follows.head]
  | digits marks signs digits =>
    simp [marks, skipExponent_append signs digits follows.startsWithDigit]

theorem skip_after_whole (second : Fraction fraction) (third : Exponent exponent)
    (follows : Follows s) :
    (match fraction ++ (exponent ++ s) with
      | '.' :: s => skipFraction s
      | c :: s => if isExponentMark c then skipExponent s else .ok (c :: s)
      | [] => .ok []) = .ok s := by
  cases second with
  | none =>
    cases third with
    | none =>
      cases s with
      | nil => rfl
      | cons c s => simp [follows.head]
    | digits marks signs digits =>
      simp [marks, ne_point_of_isExponentMark marks,
        skipExponent_append signs digits follows.startsWithDigit]
  | digits digits => exact skipFraction_append digits third follows

theorem skip_amount (number : Amount amount) (follows : Follows s) :
    skip (amount ++ s) = .ok s := by
  obtain ⟨first, second, third⟩ := number
  have ends := second.startsWithDigit third follows
  have rest := skip_after_whole second third follows
  simp only [List.append_assoc]
  cases first with
  | zero =>
    simp only [List.singleton_append, skip, ends]
    exact rest
  | digits digits leading =>
    rw [skip]
    · simp only [digits.starts, if_true, dropWhile_digits digits.digits ends]
      exact rest
    · exact digits.ne_zero_cons leading _

section Scanning

variable {negative : Bool} {significand taken dropped : Nat} {place : Int}

theorem takeDigits_append (digits : ∀ d ∈ ds, d.isDigit = true) (significand taken : Nat) :
    ∃ reached count left, (∀ d ∈ left, d.isDigit = true) ∧
      taken + ds.length = count + left.length ∧ ∀ s, startsWithDigit s = false →
        takeDigits significand taken (ds ++ s) = (reached, count, left ++ s) := by
  induction ds generalizing significand taken with
  | nil =>
    refine ⟨significand, taken, [], nofun, rfl, fun s ends => ?_⟩
    cases s with
    | nil => rfl
    | cons c s =>
      have other : c.isDigit = false := ends
      simp [takeDigits, other]
  | cons d ds ih =>
    obtain ⟨first, later⟩ := List.forall_mem_cons.mp digits
    by_cases fits : 10 * significand + Decimal.digitValue d < Nat.pow 2 64
    · obtain ⟨reached, count, left, rest, total, takes⟩ :=
        ih later (10 * significand + Decimal.digitValue d) (taken + 1)
      refine ⟨reached, count, left, rest, ?_, fun s ends => ?_⟩
      · rw [List.length_cons]
        omega
      · rw [List.cons_append, takeDigits, if_pos ⟨first, fits⟩]
        exact takes s ends
    · refine ⟨significand, taken, d :: ds, digits, rfl, fun s ends => ?_⟩
      rw [List.cons_append, takeDigits, if_neg fun both => fits both.2]

theorem ofParts_settles (negative : Bool) (significand : Nat) (place : Int) :
    ∃ o, ∀ s, ofParts negative significand place s = settled o s := by
  simp only [ofParts]
  cases scaled? significand place with
  | none => exact ⟨none, fun _ => rfl⟩
  | some x => exact ⟨some (.real (if negative then -x else x)), fun _ => rfl⟩

theorem withExponent_settles (signs : sign ∈ [[], ['-'], ['+']]) (digits : Digits ds)
    (negative : Bool) (significand : Nat) (place : Int) : ∃ o, ∀ s, Follows s →
      withExponent negative significand place (sign ++ (ds ++ s)) = settled o s := by
  obtain ⟨down, splits⟩ := splitSign_digits signs digits
  have evaluates : ∀ s, Follows s →
      withExponent negative significand place (sign ++ (ds ++ s)) =
        if Decimal.natural ds < Nat.pow 2 31 then
          ofParts negative significand
            (if down then place - Decimal.natural ds else place + Decimal.natural ds) s
        else if significand ≠ 0 ∧ !down then .error .malformed
        else .ok (.real (if negative then -0.0 else 0.0), s) := by
    intro s follows
    have some : (ds ++ s).isEmpty = false := by simp [digits.nonempty]
    simp only [withExponent, splits, some, digits.starts,
      takeWhile_digits digits.digits follows.startsWithDigit,
      dropWhile_digits digits.digits follows.startsWithDigit]
    rfl
  by_cases small : Decimal.natural ds < Nat.pow 2 31
  · obtain ⟨o, settles⟩ := ofParts_settles negative significand
      (if down then place - Decimal.natural ds else place + Decimal.natural ds)
    exact ⟨o, fun s follows => by rw [evaluates s follows, if_pos small, settles]⟩
  · by_cases large : significand ≠ 0 ∧ !down
    · exact ⟨none, fun s follows => by rw [evaluates s follows, if_neg small, if_pos large]; rfl⟩
    · exact ⟨some (.real (if negative then -0.0 else 0.0)), fun s follows => by
        rw [evaluates s follows, if_neg small, if_neg large]
        rfl⟩

theorem withFraction_settles (digits : Digits ds) (form : Exponent exponent) (negative : Bool)
    (significand : Nat) (place : Int) : ∃ o, ∀ s, Follows s →
      withFraction negative significand place (ds ++ (exponent ++ s)) = settled o s := by
  obtain ⟨reached, count, left, rest, total, takes⟩ :=
    takeDigits_append digits.digits significand 0
  have some : count = 0 → Digits left := by
    rintro rfl
    refine ⟨?_, rest⟩
    rintro rfl
    exact digits.nonempty (List.length_eq_zero_iff.mp (by simpa using total))
  have evaluates : ∀ c s, startsWithDigit (c :: s) = false →
      withFraction negative significand place (ds ++ c :: s) =
        if isExponentMark c then withExponent negative reached (place - count) s
        else ofParts negative reached (place - count) (c :: s) := by
    intro c s ends
    have early : ¬ (count = 0 ∧ (left ++ c :: s).isEmpty) := by simp
    have odd : ¬ (count = 0 ∧ !startsWithDigit (left ++ c :: s)) := by
      rintro ⟨zero, other⟩
      rw [(some zero).starts] at other
      cases other
    simp only [withFraction, takes _ ends, if_neg early, if_neg odd, dropWhile_digits rest ends]
  cases form with
  | none =>
    obtain ⟨o, settles⟩ := ofParts_settles negative reached (place - count)
    refine ⟨o, fun s follows => ?_⟩
    cases s with
    | nil => cases follows
    | cons c s =>
      rw [List.nil_append, evaluates c s follows.startsWithDigit, follows.head.2.1, if_neg nofun]
      exact settles (c :: s)
  | @digits mark _ _ marks signs more =>
    obtain ⟨o, settles⟩ := withExponent_settles signs more negative reached (place - count)
    refine ⟨o, fun s follows => ?_⟩
    have ends := (Exponent.digits marks signs more).startsWithDigit follows
    rw [List.cons_append] at ends ⊢
    rw [evaluates mark _ ends, if_pos marks, List.append_assoc]
    exact settles s follows

theorem withInteger_settles (second : Fraction fraction) (third : Exponent exponent)
    (negative : Bool) (significand dropped : Nat) : ∃ o, ∀ s, Follows s →
      withInteger negative significand dropped (fraction ++ (exponent ++ s)) = settled o s := by
  cases second with
  | digits digits => exact withFraction_settles digits third negative significand dropped
  | none =>
    cases third with
    | digits marks signs more =>
      obtain ⟨o, settles⟩ := withExponent_settles signs more negative significand dropped
      refine ⟨o, fun s follows => ?_⟩
      simpa [withInteger, marks, ne_point_of_isExponentMark marks] using settles s follows
    | none =>
      obtain ⟨o, settles⟩ := ofParts_settles negative significand dropped
      refine ⟨if dropped = 0 then some (integer negative significand) else o,
        fun s follows => ?_⟩
      cases s with
      | nil => cases follows
      | cons c s =>
        obtain ⟨-, unmarked, point⟩ := follows.head
        simp only [List.nil_append, withInteger, unmarked, Bool.false_eq_true, if_false]
        by_cases all : dropped = 0
        · rw [if_pos all, if_pos all]
          rfl
        · rw [if_neg all, if_neg all]
          exact settles (c :: s)

theorem scan_settles (number : Amount amount) (negative : Bool) :
    ∃ o, ∀ s, Follows s → scan negative (amount ++ s) = settled o s := by
  obtain ⟨first, second, third⟩ := number
  simp only [List.append_assoc]
  cases first with
  | zero =>
    obtain ⟨o, settles⟩ := withInteger_settles second third negative 0 0
    refine ⟨o, fun s follows => ?_⟩
    simp only [List.singleton_append, scan, second.startsWithDigit third follows]
    exact settles s follows
  | @digits ds digits leading =>
    obtain ⟨reached, count, left, rest, -, takes⟩ := takeDigits_append digits.digits 0 0
    obtain ⟨o, settles⟩ := withInteger_settles second third negative reached left.length
    refine ⟨o, fun s follows => ?_⟩
    have ends := second.startsWithDigit third follows
    rw [scan]
    · simp only [digits.starts, if_true, takes _ ends, takeWhile_digits rest ends,
        List.drop_left]
      exact settles s follows
    · simp [digits.nonempty]
    · exact digits.ne_zero_cons leading _

end Scanning

end Number

end PolishPlotter.Json
