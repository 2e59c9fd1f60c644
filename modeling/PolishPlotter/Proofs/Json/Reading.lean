import PolishPlotter.Proofs.Json.Skipping

set_option autoImplicit false

namespace PolishPlotter.Json

variable {α β : Type} {v s : List Char}

/-- The reader gets to the end of the value, or refuses it, for reasons in the value alone. -/
def Settles (read : List Char → Except ReadError (Scanned α)) (v : List Char) : Prop :=
  ∃ o : Option α, ∀ (gap : Gap) (s : List Char), Follows s →
    read (gap.chars ++ (v ++ s)) = settled o s

def meaning (read : List Char → Except ReadError (Scanned α)) (v : List Char) : Option α :=
  -- Anything that may follow a value would do for the bracket.
  match read (v ++ ['\x7d']) with
  | .ok (x, _) => some x
  | .error _ => none

theorem Settles.read_eq {read : List Char → Except ReadError (Scanned α)} (settles : Settles read v)
    (follows : Follows s) (gap : Gap) :
    read (gap.chars ++ (v ++ s)) = settled (meaning read v) s := by
  obtain ⟨o, settles⟩ := settles
  have closed : read (v ++ ['\x7d']) = settled o ['\x7d'] :=
    settles ⟨[], nofun⟩ ['\x7d'] (.mark (by simp))
  have same : meaning read v = o := by
    rw [meaning, closed]
    cases o <;> rfl
  rw [settles gap s follows, same]

theorem Settles.read_value {read : List Char → Except ReadError (Scanned α)}
    (settles : Settles read v) (follows : Follows s) :
    read (v ++ s) = settled (meaning read v) s :=
  settles.read_eq follows ⟨[], nofun⟩

theorem WellFormed.kinds (wellFormed : WellFormed v) :
    (∃ inner items, v = listText inner items ∧ ∀ item ∈ items, WellFormed item.text) ∨
    (∃ inner pairs, v = objectText inner pairs ∧ (∀ pair ∈ pairs, Body pair.name) ∧
      ∀ pair ∈ pairs, WellFormed pair.value.text) ∨
    ∃ c rest, v = c :: rest ∧ c ≠ '[' ∧ c ≠ '\x7b' := by
  cases wellFormed with
  | null | true | false | negative | string =>
    exact .inr (.inr ⟨_, _, rfl, by decide, by decide⟩)
  | positive number =>
    obtain ⟨c, rest, same, digit⟩ := number.head
    exact .inr (.inr ⟨c, rest, same, ne_of_isDigit digit rfl, ne_of_isDigit digit rfl⟩)
  | list inner each => exact .inl ⟨inner, _, rfl, each⟩
  | object inner names each => exact .inr (.inl ⟨inner, _, rfl, names, each⟩)

section Scalars

theorem errorOf_settled (o : Option α) (s : List Char) : errorOf (settled o s) = .malformed := by
  cases o <;> rfl

theorem wrongKind_digit {c : Char} (digit : c.isDigit = true) (s : List Char) :
    wrongKind (c :: s) = errorOf (Number.scan false (c :: s)) := by
  have apart : ∀ d, d.isDigit = false → c ≠ d := fun d => ne_of_isDigit digit
  simp [wrongKind, startsWithDigit, digit, apart]

theorem wrongKind_wellFormed (wellFormed : WellFormed v) (follows : Follows s) :
    wrongKind (v ++ s) = .malformed := by
  cases wellFormed with
  | null | true | false => simp [wrongKind, expect, errorOf]
  | positive number =>
    obtain ⟨c, rest, same, digit⟩ := number.head
    obtain ⟨o, settles⟩ := Number.scan_settles number false
    have scanned := settles s follows
    rw [same, List.cons_append] at scanned ⊢
    rw [wrongKind_digit digit, scanned, errorOf_settled]
  | negative number =>
    obtain ⟨o, settles⟩ := Number.scan_settles number true
    rw [List.cons_append, wrongKind, settles s follows, errorOf_settled]
  | string string =>
    obtain ⟨o, settles⟩ := string_settles string
    rw [List.cons_append, List.append_assoc, List.singleton_append, wrongKind, settles s,
      errorOf_settled]
  | list inner =>
    obtain ⟨rest, same⟩ := bracketed_head '[' ']' inner _
    rw [listText, same]
    rfl
  | object inner =>
    obtain ⟨rest, same⟩ := bracketed_head '\x7b' '\x7d' inner _
    rw [objectText, same]
    rfl

theorem skipBlank_value (wellFormed : WellFormed v) (gap : Gap) (s : List Char) :
    skipBlank (gap.chars ++ (v ++ s)) = v ++ s := by
  obtain ⟨c, rest, rfl, starts⟩ := wellFormed.head
  rw [List.cons_append, skipBlank_gap_cons starts.visible]

theorem number_settles (wellFormed : WellFormed v) : Settles number v := by
  have visible := skipBlank_value wellFormed
  have refused : (∀ s, ∀ t, v ++ s ≠ '-' :: t) → (∀ s, startsWithDigit (v ++ s) = false) →
      Settles number v := by
    intro minus digit
    refine ⟨none, fun gap s follows => ?_⟩
    have wrong := wrongKind_wellFormed wellFormed follows
    simp [number, visible gap s, digit s, wrong, settled, minus s]
  cases wellFormed with
  | null | true | false => exact refused (by simp) (by simp [startsWithDigit])
  | positive number =>
    obtain ⟨c, rest, rfl, digit⟩ := number.head
    obtain ⟨o, settles⟩ := Number.scan_settles number false
    refine ⟨o, fun gap s follows => ?_⟩
    have minus : c ≠ '-' := ne_of_isDigit digit rfl
    rw [← settles s follows, Json.number, visible gap s]
    simp [startsWithDigit, digit, minus]
  | negative number =>
    obtain ⟨o, settles⟩ := Number.scan_settles number true
    refine ⟨o, fun gap s follows => ?_⟩
    rw [← settles s follows, Json.number, visible gap s]
    rfl
  | string string => exact refused (by simp) (by simp [startsWithDigit])
  | list inner =>
    obtain ⟨rest, same⟩ := bracketed_head '[' ']' inner _
    rw [listText, same] at refused ⊢
    exact refused (by simp) (by simp [startsWithDigit])
  | object inner =>
    obtain ⟨rest, same⟩ := bracketed_head '\x7b' '\x7d' inner _
    rw [objectText, same] at refused ⊢
    exact refused (by simp) (by simp [startsWithDigit])

theorem real_settles (wellFormed : WellFormed v) : Settles real v := by
  obtain ⟨o, settles⟩ := number_settles wellFormed
  refine ⟨o.map Number.toFloat, fun gap s follows => ?_⟩
  rw [real, settles gap s follows]
  cases o <;> rfl

theorem natural_settles (bound : Nat) (wellFormed : WellFormed v) : Settles (natural bound) v := by
  obtain ⟨o, settles⟩ := number_settles wellFormed
  refine ⟨(o.bind Number.toNat?).filter (· < bound), fun gap s follows => ?_⟩
  rw [natural, settles gap s follows]
  cases o with
  | none => rfl
  | some number =>
    simp only [settled, bind, Except.bind, Option.bind]
    cases number.toNat? with
    | none => rfl
    | some n => by_cases small : n < bound <;> simp [small, Option.filter]

end Scalars

section Parts

def pending (first : Bool) (gap : Gap) (parts : List (List Char)) (closing : Char) (s : List Char) :
    List Char :=
  match first, parts with
  | true, part :: rest => part ++ (rest.flatMap (',' :: ·) ++ closing :: s)
  | _, parts => gap.chars ++ (parts.flatMap (',' :: ·) ++ closing :: s)

variable {first : Bool} {gap : Gap} {item : Padded} {items : List Padded}

theorem bracketed_append (opening closing : Char) (inner : Gap) (parts : List (List Char))
    (s : List Char) : bracketed opening closing inner parts ++ s =
      opening :: pending true inner parts closing s := by
  cases parts <;> simp [bracketed, pending]

theorem pending_false (gap : Gap) (parts : List (List Char)) (closing : Char) (s : List Char) :
    pending false gap parts closing s =
      gap.chars ++ (parts.flatMap (',' :: ·) ++ closing :: s) := rfl

theorem pending_nil (first : Bool) (gap : Gap) (closing : Char) (s : List Char) :
    pending first gap [] closing s = gap.chars ++ closing :: s := by
  cases first <;> rfl

theorem follows_pending (gap : Gap) (parts : List (List Char)) (bracket : Bracket) (s : List Char) :
    Follows (pending false gap parts bracket.closing s) :=
  (follows_parts parts bracket s).gap gap

theorem skipBlank_pending_nil {closing : Char} (visible : isBlank closing = false) (first : Bool)
    (gap : Gap) (s : List Char) : skipBlank (pending first gap [] closing s) = closing :: s := by
  rw [pending_nil, skipBlank_gap_cons visible]

theorem skipBlank_pending_cons (gap : Gap) (part : List Char) (rest : List (List Char))
    (closing : Char) (s : List Char) : skipBlank (pending false gap (part :: rest) closing s) =
      ',' :: pending true gap (part :: rest) closing s := by
  rw [pending_false, List.flatMap_cons, List.cons_append, List.cons_append,
    skipBlank_gap_cons (by decide), List.append_assoc]
  rfl

end Parts

section Lists

variable {first : Bool} {gap : Gap} {item : Padded} {items : List Padded}

def itemsLeft (first : Bool) (gap : Gap) (items : List Padded) (s : List Char) : List Char :=
  pending first gap (items.map Padded.chars) ']' s

theorem skipBlank_itemsLeft (wellFormed : WellFormed item.text) (gap : Gap) (items : List Padded)
    (s : List Char) : skipBlank (itemsLeft true gap (item :: items) s) =
      item.text ++ itemsLeft false item.after items s := by
  simp only [itemsLeft, List.map_cons, pending, Padded.chars, List.append_assoc]
  exact skipBlank_value wellFormed _ _

theorem closeList_nil (first : Bool) (gap : Gap) (s : List Char) :
    closeList (itemsLeft first gap [] s) = .ok s := by
  have visible : isBlank ']' = false := by decide
  simp only [closeList, itemsLeft, List.map_nil, skipBlank_pending_nil visible]

theorem closeList_cons (wellFormed : WellFormed item.text) (first : Bool) (gap : Gap)
    (items : List Padded) (s : List Char) :
    closeList (itemsLeft first gap (item :: items) s) = .error .malformed := by
  cases first with
  | false => simp [closeList, itemsLeft, skipBlank_pending_cons]
  | true =>
    obtain ⟨c, rest, same, starts⟩ := wellFormed.head
    simp [closeList, skipBlank_itemsLeft wellFormed, same, starts.list]

theorem element?_nil (first : Bool) (gap : Gap) (s : List Char) :
    element? first (itemsLeft first gap [] s) = .ok none := by
  have visible : isBlank ']' = false := by decide
  simp only [element?, itemsLeft, List.map_nil, skipBlank_pending_nil visible]

theorem element?_cons (wellFormed : WellFormed item.text) (first : Bool) (gap : Gap)
    (items : List Padded) (s : List Char) :
    element? first (itemsLeft first gap (item :: items) s) =
      .ok (some (item.text ++ itemsLeft false item.after items s)) := by
  obtain ⟨c, rest, same, starts⟩ := wellFormed.head
  have next := skipBlank_itemsLeft wellFormed gap items s
  cases first with
  | false =>
    have comma : skipBlank (itemsLeft false gap (item :: items) s) =
        ',' :: itemsLeft true gap (item :: items) s := skipBlank_pending_cons ..
    simp [element?, comma, next, same, starts.list]
  | true => simp [element?, next, same, starts.list, starts.comma]

theorem elements_settles {read : List Char → Except ReadError (Scanned α)}
    (each : ∀ item ∈ items, WellFormed item.text) (settles : ∀ item ∈ items, Settles read item.text)
    (first : Bool) (n : Nat) : ∃ o : Option (List α), ∀ gap s,
      elements read first n (itemsLeft first gap items s) = settled o s := by
  induction n generalizing items first with
  | zero =>
    cases items with
    | nil =>
      refine ⟨some [], fun gap s => ?_⟩
      rw [elements, closeList_nil]
      rfl
    | cons item items =>
      refine ⟨none, fun gap s => ?_⟩
      rw [elements, closeList_cons (each item (List.mem_cons_self ..))]
      rfl
  | succ n ih =>
    cases items with
    | nil =>
      refine ⟨none, fun gap s => ?_⟩
      rw [elements, element?_nil]
      rfl
    | cons item items =>
      obtain ⟨this, those⟩ := List.forall_mem_cons.mp each
      obtain ⟨own, others⟩ := List.forall_mem_cons.mp settles
      obtain ⟨o, rest⟩ := ih those others false
      refine ⟨(meaning read item.text).bind fun x => o.map (x :: ·), fun gap s => ?_⟩
      have follows : Follows (itemsLeft false item.after items s) :=
        follows_pending item.after _ .list s
      rw [elements, element?_cons this]
      simp only [bind, Except.bind, own.read_value follows]
      cases meaning read item.text with
      | none => rfl
      | some x =>
        simp only [settled, rest]
        cases o <;> rfl

theorem list_settles {read : List Char → Except ReadError (Scanned α)}
    (settles : ∀ v, WellFormed v → Settles read v) (n : Nat) (wellFormed : WellFormed v) :
    Settles (list n read) v := by
  have visible := skipBlank_value wellFormed
  have refused : (∀ s t, v ++ s ≠ '[' :: t) → Settles (list n read) v := by
    intro other
    refine ⟨none, fun gap s follows => ?_⟩
    have wrong := wrongKind_wellFormed wellFormed follows
    simp [list, visible gap s, wrong, settled, other s]
  rcases wellFormed.kinds with ⟨inner, items, rfl, each⟩ | ⟨inner, pairs, rfl, -, -⟩ |
    ⟨c, rest, rfl, other, -⟩
  · obtain ⟨o, reads⟩ := elements_settles each (fun item member => settles _ (each item member))
      true n
    refine ⟨o, fun gap s follows => ?_⟩
    rw [list, visible gap s, ← reads inner s, listText, bracketed_append]
    rfl
  · obtain ⟨rest, same⟩ := bracketed_head '\x7b' '\x7d' inner (pairs.map Pair.chars)
    refine refused fun s t => ?_
    simp [objectText, same]
  · exact refused fun s t => by simp [other]

end Lists

end PolishPlotter.Json
