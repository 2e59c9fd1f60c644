import PolishPlotter.Proofs.Json.Numerals

set_option autoImplicit false

namespace PolishPlotter.Json

variable {c : Char} {v s t : List Char} {bracket : Bracket} {enclosing : List Bracket}
  {fuel : Nat}

section Blanks

theorem skipBlank_gap (gap : Gap) (s : List Char) : skipBlank (gap.chars ++ s) = skipBlank s :=
  List.dropWhile_append_of_pos gap.blank

theorem skipBlank_cons (visible : isBlank c = false) (s : List Char) :
    skipBlank (c :: s) = c :: s :=
  List.dropWhile_cons_of_neg (by simp [visible])

theorem skipBlank_gap_cons (visible : isBlank c = false) (gap : Gap) (s : List Char) :
    skipBlank (gap.chars ++ c :: s) = c :: s := by
  rw [skipBlank_gap, skipBlank_cons visible]

theorem skipBlank_skipBlank (s : List Char) : skipBlank (skipBlank s) = skipBlank s :=
  List.dropWhile_idempotent isBlank s

theorem Follows.gap (follows : Follows s) (gap : Gap) : Follows (gap.chars ++ s) := by
  obtain ⟨chars, blank⟩ := gap
  cases chars with
  | nil => exact follows
  | cons c rest => exact .blank (blank c (List.mem_cons_self ..))

theorem colon_gap (gap : Gap) (s : List Char) : colon (gap.chars ++ ':' :: s) = .ok s := by
  simp only [colon, skipBlank_gap_cons (by decide : isBlank ':' = false)]

end Blanks

structure Starts (c : Char) : Prop where
  visible : isBlank c = false
  comma : c ≠ ','
  list : c ≠ ']'

theorem starts_of_isDigit (digit : c.isDigit = true) : Starts c := by
  constructor
  · by_contra blank
    simp only [isBlank, Bool.not_eq_false, Bool.or_eq_true, decide_eq_true_eq] at blank
    rcases blank with ((rfl | rfl) | rfl) | rfl <;> cases digit
  all_goals
    rintro rfl
    cases digit

theorem ne_of_isDigit {d : Char} (digit : c.isDigit = true) (other : d.isDigit = false) : c ≠ d := by
  rintro rfl
  rw [digit] at other
  cases other

theorem Amount.head {amount : List Char} (number : Amount amount) :
    ∃ c rest, amount = c :: rest ∧ c.isDigit = true := by
  obtain ⟨first, -, -⟩ := number
  cases first with
  | zero => exact ⟨_, _, rfl, rfl⟩
  | digits digits =>
    obtain ⟨nonempty, digits⟩ := digits
    obtain ⟨d, ds, rfl⟩ := List.exists_cons_of_ne_nil nonempty
    exact ⟨d, _, rfl, digits d (List.mem_cons_self ..)⟩

theorem bracketed_head (opening closing : Char) (inner : Gap) (parts : List (List Char)) :
    ∃ rest, bracketed opening closing inner parts = opening :: rest := by
  cases parts with
  | nil => exact ⟨_, rfl⟩
  | cons first rest => exact ⟨_, rfl⟩

theorem WellFormed.head (wellFormed : WellFormed v) : ∃ c rest, v = c :: rest ∧ Starts c := by
  cases wellFormed with
  | null | true | false | negative | string => exact ⟨_, _, rfl, by decide, by decide, by decide⟩
  | positive number =>
    obtain ⟨c, rest, same, digit⟩ := number.head
    exact ⟨c, rest, same, starts_of_isDigit digit⟩
  | list inner =>
    obtain ⟨rest, same⟩ := bracketed_head '[' ']' inner _
    exact ⟨_, rest, same, by decide, by decide, by decide⟩
  | object inner =>
    obtain ⟨rest, same⟩ := bracketed_head '\x7b' '\x7d' inner _
    exact ⟨_, rest, same, by decide, by decide, by decide⟩

section Brackets

def Bracket.opening : Bracket → Char
  | .list => '['
  | .object => '\x7b'

def Bracket.closing : Bracket → Char
  | .list => ']'
  | .object => '\x7d'

def skipPart (bracket : Bracket) (fuel : Nat) (enclosing : List Bracket) (s : List Char) :
    Except ReadError (List Char) :=
  match bracket with
  | .list => skipValueFrom fuel (.list :: enclosing) s
  | .object =>
    match skipName s with
    | .ok s => skipValueFrom fuel (.object :: enclosing) s
    | .error e => .error e

theorem skipValueFrom_skipBlank (fuel : Nat) (enclosing : List Bracket) (s : List Char) :
    skipValueFrom (fuel + 1) enclosing (skipBlank s) = skipValueFrom (fuel + 1) enclosing s := by
  rw [skipValueFrom, skipValueFrom, skipBlank_skipBlank]

theorem skipPart_skipBlank (bracket : Bracket) (fuel : Nat) (enclosing : List Bracket)
    (s : List Char) :
    skipPart bracket (fuel + 1) enclosing (skipBlank s) = skipPart bracket (fuel + 1) enclosing s := by
  cases bracket with
  | list => exact skipValueFrom_skipBlank fuel _ s
  | object => rw [skipPart, skipPart, skipName, skipName, skipBlank_skipBlank]

theorem skipValueFrom_gap (fuel : Nat) (enclosing : List Bracket) (gap : Gap) (s : List Char) :
    skipValueFrom fuel enclosing (gap.chars ++ s) = skipValueFrom fuel enclosing s := by
  cases fuel with
  | zero => rfl
  | succ fuel => rw [← skipValueFrom_skipBlank, skipBlank_gap, skipValueFrom_skipBlank]

theorem skipClosingFrom_gap (fuel : Nat) (gap : Gap) (s : List Char) :
    skipClosingFrom fuel (bracket :: enclosing) (gap.chars ++ s) =
      skipClosingFrom fuel (bracket :: enclosing) s := by
  cases fuel with
  | zero => rfl
  | succ fuel =>
    unfold skipClosingFrom
    rw [skipBlank_gap]

theorem skipClosingFrom_comma (fuel : Nat) (s : List Char) :
    skipClosingFrom (fuel + 1) (bracket :: enclosing) (',' :: s) =
      skipPart bracket fuel enclosing s := by
  have comma : skipBlank (',' :: s) = ',' :: s := skipBlank_cons (by decide) s
  cases bracket with
  | list => simp only [skipClosingFrom, comma, skipPart]
  | object => cases named : skipName s <;> simp only [skipClosingFrom, comma, skipPart, named]

theorem skipClosingFrom_closing (fuel : Nat) (s : List Char) :
    skipClosingFrom (fuel + 1) (bracket :: enclosing) (bracket.closing :: s) =
      skipClosingFrom fuel enclosing s := by
  have visible : isBlank bracket.closing = false := by cases bracket <;> decide
  simp only [skipClosingFrom, skipBlank_cons visible]
  cases bracket <;> rfl

theorem skipValueFrom_empty (fuel : Nat) (enclosing : List Bracket) (gap : Gap) (s : List Char) :
    skipValueFrom (fuel + 1) enclosing (bracket.opening :: (gap.chars ++ bracket.closing :: s)) =
      skipClosingFrom fuel enclosing s := by
  have first : isBlank bracket.opening = false := by cases bracket <;> decide
  have last : isBlank bracket.closing = false := by cases bracket <;> decide
  have inner := skipBlank_gap_cons last gap s
  simp only [skipValueFrom, skipBlank_cons first]
  cases bracket <;> simp only [Bracket.opening, Bracket.closing] at inner ⊢ <;> simp only [inner]

theorem skipValueFrom_opening {inside : Char} {rest : List Char}
    (starts : skipBlank s = inside :: rest) (other : inside ≠ bracket.closing) (fuel : Nat)
    (enclosing : List Bracket) : skipValueFrom (fuel + 1) enclosing (bracket.opening :: s) =
      skipPart bracket fuel enclosing (skipBlank s) := by
  have first : isBlank bracket.opening = false := by cases bracket <;> decide
  simp only [skipValueFrom, skipBlank_cons first]
  cases bracket with
  | list =>
    have apart : inside ≠ ']' := other
    simp [Bracket.opening, starts, apart, skipPart]
  | object =>
    have apart : inside ≠ '\x7d' := other
    simp only [Bracket.opening, starts, skipPart]
    cases named : skipName (inside :: rest) <;> simp [apart, named]

end Brackets

section Parts

variable {part : List Char} {inside : Char}

/-- A value that is passed over by as many calls as it has characters. -/
structure Skipped (v : List Char) : Prop where
  skips : ∃ k, k < v.length ∧ ∀ fuel enclosing s, Follows s →
    skipValueFrom (fuel + 1 + k) enclosing (v ++ s) = skipClosingFrom fuel enclosing s

structure Passed (bracket : Bracket) (part : List Char) : Prop where
  starts : ∃ c, c ≠ bracket.closing ∧ ∀ s, ∃ rest, skipBlank (part ++ s) = c :: rest
  skips : ∃ k, k < part.length ∧ ∀ fuel enclosing s, Follows s →
    skipPart bracket (fuel + 1 + k) enclosing (part ++ s) =
      skipClosingFrom fuel (bracket :: enclosing) s

theorem follows_closing (bracket : Bracket) (s : List Char) : Follows (bracket.closing :: s) := by
  cases bracket <;> exact .mark (by simp [Bracket.closing])

theorem follows_parts (parts : List (List Char)) (bracket : Bracket) (s : List Char) :
    Follows (parts.flatMap (',' :: ·) ++ bracket.closing :: s) := by
  cases parts with
  | nil => exact follows_closing bracket s
  | cons part rest => exact .mark (by simp)

theorem skips_rest {parts : List (List Char)} (passed : ∀ part ∈ parts, Passed bracket part) :
    ∃ k, k ≤ (parts.flatMap (',' :: ·)).length ∧ ∀ fuel enclosing s,
      skipClosingFrom (fuel + 1 + k) (bracket :: enclosing)
        (parts.flatMap (',' :: ·) ++ bracket.closing :: s) = skipClosingFrom fuel enclosing s := by
  induction parts with
  | nil => exact ⟨0, Nat.zero_le _, fun fuel enclosing s => skipClosingFrom_closing fuel s⟩
  | cons part rest ih =>
    obtain ⟨first, later⟩ := List.forall_mem_cons.mp passed
    obtain ⟨k, short, skips⟩ := first.skips
    obtain ⟨l, less, more⟩ := ih later
    refine ⟨k + l + 2, ?_, fun fuel enclosing s => ?_⟩
    · rw [List.flatMap_cons, List.length_append, List.length_cons]
      omega
    · have steps : fuel + 1 + (k + l + 2) = fuel + 1 + l + 1 + k + 1 := by omega
      rw [List.flatMap_cons, List.append_assoc, steps, List.cons_append, skipClosingFrom_comma,
        skips _ _ _ (follows_parts rest bracket s), more]

theorem skipped_bracketed (bracket : Bracket) {parts : List (List Char)} (inner : Gap)
    (passed : ∀ part ∈ parts, Passed bracket part) :
    Skipped (bracketed bracket.opening bracket.closing inner parts) := by
  cases parts with
  | nil =>
    refine ⟨0, Nat.zero_lt_succ _, fun fuel enclosing s _ => ?_⟩
    simp only [bracketed, List.cons_append, List.append_assoc, List.nil_append]
    exact skipValueFrom_empty fuel enclosing inner s
  | cons part rest =>
    obtain ⟨first, later⟩ := List.forall_mem_cons.mp passed
    obtain ⟨c, apart, starts⟩ := first.starts
    obtain ⟨k, short, skips⟩ := first.skips
    obtain ⟨l, less, more⟩ := skips_rest later
    refine ⟨k + l + 2, ?_, fun fuel enclosing s _ => ?_⟩
    · simp only [bracketed, List.length_cons, List.length_append, List.length_nil]
      omega
    · have steps : fuel + 1 + (k + l + 2) = fuel + 1 + l + 1 + k + 1 := by omega
      have calls : fuel + 1 + l + 1 + k = fuel + 1 + l + k + 1 := by omega
      obtain ⟨tail, visible⟩ := starts (rest.flatMap (',' :: ·) ++ bracket.closing :: s)
      simp only [bracketed, List.cons_append, List.append_assoc, List.nil_append]
      rw [steps, skipValueFrom_opening visible apart, calls, skipPart_skipBlank, ← calls,
        skips _ _ _ (follows_parts rest bracket s), more]

end Parts

theorem Padded.passed {item : Padded} (wellFormed : WellFormed item.text)
    (skipped : Skipped item.text) : Passed .list item.chars := by
  obtain ⟨c, rest, same, starts⟩ := wellFormed.head
  obtain ⟨k, short, skips⟩ := skipped.skips
  constructor
  · refine ⟨c, starts.list, fun s => ⟨rest ++ (item.after.chars ++ s), ?_⟩⟩
    rw [Padded.chars, same, List.append_assoc, List.append_assoc, List.cons_append,
      skipBlank_gap_cons starts.visible]
  · refine ⟨k, ?_, fun fuel enclosing s follows => ?_⟩
    · rw [Padded.chars, List.length_append, List.length_append]
      omega
    · rw [Padded.chars, List.append_assoc, List.append_assoc, skipPart, skipValueFrom_gap,
        skips _ _ _ (follows.gap _), skipClosingFrom_gap]

theorem skipName_pair {pair : Pair} (name : Body pair.name) (s : List Char) :
    skipName (pair.chars ++ s) = .ok (pair.value.chars ++ s) := by
  have quote : isBlank '"' = false := by decide
  simp only [Pair.chars, List.append_assoc, List.cons_append, skipName, skipBlank_gap_cons quote,
    skipString_body name, bind, Except.bind, colon_gap]

theorem Pair.passed {pair : Pair} (name : Body pair.name) (skipped : Skipped pair.value.text) :
    Passed .object pair.chars := by
  obtain ⟨k, short, skips⟩ := skipped.skips
  have quote : isBlank '"' = false := by decide
  constructor
  · refine ⟨'"', by decide, fun s => ?_⟩
    rw [Pair.chars, List.append_assoc, List.cons_append, skipBlank_gap_cons quote]
    exact ⟨_, rfl⟩
  · refine ⟨k, ?_, fun fuel enclosing s follows => ?_⟩
    · simp only [Pair.chars, Padded.chars, List.length_append, List.length_cons]
      omega
    · rw [skipPart, skipName_pair name]
      simp only [Padded.chars, List.append_assoc]
      rw [skipValueFrom_gap, skips _ _ _ (follows.gap _), skipClosingFrom_gap]

theorem skips_amount {amount : List Char} (number : Amount amount) (follows : Follows s)
    (fuel : Nat) (enclosing : List Bracket) :
    skipValueFrom (fuel + 1) enclosing (amount ++ s) = skipClosingFrom fuel enclosing s := by
  obtain ⟨c, rest, same, digit⟩ := number.head
  have visible := (starts_of_isDigit digit).visible
  have passes := Number.skip_amount number follows
  have apart : ∀ d, d.isDigit = false → c ≠ d := fun d => ne_of_isDigit digit
  rw [same, List.cons_append] at passes ⊢
  simp [skipValueFrom, skipBlank_cons visible, passes, digit, apart]

theorem WellFormed.skipped (wellFormed : WellFormed v) : Skipped v := by
  induction wellFormed with
  | null | true | false =>
    refine ⟨0, by simp, fun fuel enclosing s _ => ?_⟩
    simp [skipValueFrom, skipBlank, isBlank, expect]
  | positive number =>
    obtain ⟨c, rest, same, -⟩ := number.head
    refine ⟨0, by simp [same], fun fuel enclosing s follows => ?_⟩
    exact skips_amount number follows fuel enclosing
  | negative number =>
    refine ⟨0, by simp, fun fuel enclosing s follows => ?_⟩
    simp [skipValueFrom, skipBlank, isBlank, Number.skip_amount number follows]
  | string string =>
    refine ⟨0, by simp, fun fuel enclosing s _ => ?_⟩
    simp [skipValueFrom, skipBlank, isBlank, skipString_body string]
  | list inner each ih =>
    refine skipped_bracketed .list inner ?_
    rw [List.forall_mem_map]
    exact fun item member => Padded.passed (each item member) (ih item member)
  | object inner names each ih =>
    refine skipped_bracketed .object inner ?_
    rw [List.forall_mem_map]
    exact fun pair member => Pair.passed (names pair member) (ih pair member)

theorem skipValue_append (wellFormed : WellFormed v) (gap : Gap) (follows : Follows s) :
    skipValue (gap.chars ++ (v ++ s)) = .ok s := by
  obtain ⟨k, short, skips⟩ := wellFormed.skipped.skips
  obtain ⟨fuel, enough⟩ : ∃ fuel, (gap.chars ++ (v ++ s)).length + 1 = fuel + 1 + k := by
    refine ⟨(gap.chars ++ (v ++ s)).length - k, ?_⟩
    simp only [List.length_append]
    omega
  rw [skipValue, enough, skipValueFrom_gap, skips _ _ _ follows, skipClosingFrom]

end PolishPlotter.Json
