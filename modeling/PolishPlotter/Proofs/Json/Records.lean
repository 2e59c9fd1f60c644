import PolishPlotter.Proofs.Json.Members
import PolishPlotter.Proofs.Json.Reading

set_option autoImplicit false

namespace PolishPlotter.Json

variable {ρ : Type} {fields : List (RecordField ρ)} {v s : List Char}

def Sound (fields : List (RecordField ρ)) : Prop :=
  ∀ field ∈ fields, ∀ record v, WellFormed v → Settles (field.read record) v

theorem positions_settles {items : List Padded} (sound : Sound fields)
    (each : ∀ item ∈ items, WellFormed item.text) (first : Bool) (record : ρ) :
    ∃ o : Option ρ, ∀ gap s,
      positions fields first record (itemsLeft first gap items s) = settled o s := by
  induction fields generalizing items first record with
  | nil =>
    cases items with
    | nil =>
      refine ⟨some record, fun gap s => ?_⟩
      rw [positions, closeList_nil]
      rfl
    | cons item items =>
      refine ⟨none, fun gap s => ?_⟩
      rw [positions, closeList_cons (each item (List.mem_cons_self ..))]
      rfl
  | cons field fields ih =>
    obtain ⟨own, others⟩ := List.forall_mem_cons.mp sound
    cases items with
    | nil =>
      refine ⟨some record, fun gap s => ?_⟩
      rw [positions, element?_nil]
      simp only [bind, Except.bind, closeList_nil]
      rfl
    | cons item items =>
      obtain ⟨this, those⟩ := List.forall_mem_cons.mp each
      have reads : ∀ s, field.read record (item.text ++ itemsLeft false item.after items s) =
          settled (meaning (field.read record) item.text) (itemsLeft false item.after items s) :=
        fun s => (own record _ this).read_value (follows_pending item.after _ .list s)
      cases made : meaning (field.read record) item.text with
      | none =>
        refine ⟨none, fun gap s => ?_⟩
        rw [positions, element?_cons this]
        simp only [bind, Except.bind, reads, made]
        rfl
      | some record =>
        obtain ⟨o, rest⟩ := ih others those false record
        refine ⟨o, fun gap s => ?_⟩
        rw [positions, element?_cons this]
        simp only [bind, Except.bind, reads, made]
        exact rest item.after s

section Members

variable {pair : Pair} {pairs : List Pair}

def pairsLeft (first : Bool) (gap : Gap) (pairs : List Pair) (s : List Char) : List Char :=
  pending first gap (pairs.map Pair.chars) '\x7d' s

def nameOf (body : List Char) : Option (List Char) :=
  match string (body ++ ['"']) with
  | .ok (name, _) => some name
  | .error _ => none

theorem string_eq (name : Body pair.name) (s : List Char) :
    string (pair.name ++ '"' :: s) = settled (nameOf pair.name) s := by
  obtain ⟨o, settles⟩ := string_settles name
  have same : nameOf pair.name = o := by
    rw [nameOf, settles []]
    cases o <;> rfl
  rw [settles s, same]

def afterName (pair : Pair) (pairs : List Pair) (s : List Char) : List Char :=
  pair.between.chars ++ ':' :: (pair.value.before.chars ++
    (pair.value.text ++ pairsLeft false pair.value.after pairs s))

theorem skipBlank_pairsLeft_nil (first : Bool) (gap : Gap) (s : List Char) :
    skipBlank (pairsLeft first gap [] s) = '\x7d' :: s :=
  skipBlank_pending_nil (by decide) first gap s

theorem name?_nil (first : Bool) (gap : Gap) (s : List Char) :
    name? first (pairsLeft first gap [] s) = .ok none := by
  simp only [name?, skipBlank_pairsLeft_nil]

theorem skipBlank_pairsLeft (pair : Pair) (gap : Gap) (pairs : List Pair) (s : List Char) :
    skipBlank (pairsLeft true gap (pair :: pairs) s) =
      '"' :: (pair.name ++ '"' :: afterName pair pairs s) := by
  have quote : isBlank '"' = false := by decide
  simp only [pairsLeft, List.map_cons, pending, Pair.chars, Padded.chars, List.append_assoc,
    List.cons_append, skipBlank_gap_cons quote, afterName]

theorem name?_cons (name : Body pair.name) (first : Bool) (gap : Gap) (pairs : List Pair)
    (s : List Char) : name? first (pairsLeft first gap (pair :: pairs) s) =
      match nameOf pair.name with
      | some octets => .ok (some (octets, afterName pair pairs s))
      | none => .error .malformed := by
  have next := skipBlank_pairsLeft pair gap pairs s
  have reads := string_eq name (afterName pair pairs s)
  cases first with
  | false =>
    have comma : skipBlank (pairsLeft false gap (pair :: pairs) s) =
        ',' :: pairsLeft true gap (pair :: pairs) s := skipBlank_pending_cons ..
    simp only [name?, comma, next, reads]
    cases nameOf pair.name <;> rfl
  | true =>
    cases named : nameOf pair.name <;> rw [named] at reads <;>
      simp [name?, next, reads, settled, Except.map]

/-- The record that members make of another one; none if a field comes twice or a value will not do. -/
def gather (fields : List (RecordField ρ)) : List String → ρ → List Pair → Option ρ
  | _, record, [] => some record
  | seen, record, pair :: pairs =>
    match nameOf pair.name with
    | none => none
    | some name =>
      match fields.find? (·.name.toList = name) with
      | some field =>
        if seen.contains field.name then none
        else (meaning (field.read record) pair.value.text).bind fun record =>
          gather fields (field.name :: seen) record pairs
      | none => gather fields seen record pairs

theorem members_eq (sound : Sound fields) (names : ∀ pair ∈ pairs, Body pair.name)
    (each : ∀ pair ∈ pairs, WellFormed pair.value.text) {fuel : Nat} (enough : pairs.length < fuel)
    (seen : List String) (first : Bool) (record : ρ) (gap : Gap) (s : List Char) :
    members fields fuel seen first record (pairsLeft first gap pairs s) =
      settled (gather fields seen record pairs) s := by
  induction pairs generalizing fuel seen first record gap with
  | nil =>
    obtain ⟨fuel, rfl⟩ := Nat.exists_eq_add_one.mpr (Nat.zero_lt_of_lt enough)
    rw [members, name?_nil]
    simp only [bind, Except.bind, skipBlank_pairsLeft_nil]
    rfl
  | cons pair pairs ih =>
    obtain ⟨fuel, rfl⟩ := Nat.exists_eq_add_one.mpr (Nat.zero_lt_of_lt enough)
    obtain ⟨this, those⟩ := List.forall_mem_cons.mp names
    obtain ⟨own, others⟩ := List.forall_mem_cons.mp each
    have shorter : pairs.length < fuel := by simpa using enough
    have follows : Follows (pairsLeft false pair.value.after pairs s) :=
      follows_pending pair.value.after _ .object s
    rw [members, name?_cons this, gather]
    cases nameOf pair.name with
    | none => rfl
    | some name =>
      simp only [bind, Except.bind]
      cases found : fields.find? (·.name.toList = name) with
      | none =>
        simp only [afterName, colon_gap, skipValue_append own _ follows]
        exact ih those others shorter seen false record pair.value.after
      | some field =>
        have reads := (sound field (List.mem_of_find?_eq_some found) record _ own).read_eq follows
          pair.value.before
        by_cases again : seen.contains field.name = true
        · simp only [again, if_true]
          rfl
        · simp only [if_neg again, afterName, colon_gap, reads]
          cases meaning (field.read record) pair.value.text with
          | none => rfl
          | some record => exact ih those others shorter _ false record pair.value.after

theorem length_le_flatMap (parts : List (List Char)) :
    parts.length ≤ (parts.flatMap (',' :: ·)).length := by
  induction parts with
  | nil => exact Nat.le_refl 0
  | cons part rest ih =>
    rw [List.flatMap_cons, List.length_append, List.length_cons, List.length_cons]
    omega

theorem length_le_pairsLeft (inner : Gap) (pairs : List Pair) (s : List Char) :
    pairs.length ≤ (pairsLeft true inner pairs s).length := by
  cases pairs with
  | nil => exact Nat.zero_le _
  | cons pair pairs =>
    have rest := length_le_flatMap (pairs.map Pair.chars)
    simp only [pairsLeft, List.map_cons, pending, List.length_append, List.length_cons]
    rw [List.length_map] at rest
    omega

theorem record_object (sound : Sound fields) (names : ∀ pair ∈ pairs, Body pair.name)
    (each : ∀ pair ∈ pairs, WellFormed pair.value.text) (defaults : ρ) (gap inner : Gap)
    (s : List Char) : record fields defaults (gap.chars ++ (objectText inner pairs ++ s)) =
      settled (gather fields [] defaults pairs) s := by
  have wellFormed : WellFormed (objectText inner pairs) := .object inner names each
  have enough := Nat.lt_succ_of_le (length_le_pairsLeft inner pairs s)
  rw [record, skipBlank_value wellFormed, objectText, bracketed_append]
  exact members_eq sound names each enough [] true defaults inner s

end Members

theorem record_settles (sound : Sound fields) (defaults : ρ) (wellFormed : WellFormed v) :
    Settles (record fields defaults) v := by
  have visible := skipBlank_value wellFormed
  rcases wellFormed.kinds with ⟨inner, items, rfl, each⟩ | ⟨inner, pairs, rfl, names, each⟩ |
    ⟨c, rest, rfl, notList, notObject⟩
  · obtain ⟨o, reads⟩ := positions_settles sound each true defaults
    refine ⟨o, fun gap s follows => ?_⟩
    rw [record, visible gap s, ← reads inner s, listText, bracketed_append]
    rfl
  · exact ⟨_, fun gap s _ => record_object sound names each defaults gap inner s⟩
  · refine ⟨none, fun gap s follows => ?_⟩
    have wrong := wrongKind_wellFormed wellFormed follows
    rw [record, visible gap s]
    rw [List.cons_append] at wrong ⊢
    simp [notList, notObject, wrong, settled]

theorem document_object (sound : Sound fields) {pairs : List Pair}
    (names : ∀ pair ∈ pairs, Body pair.name)
    (each : ∀ pair ∈ pairs, WellFormed pair.value.text) (defaults : ρ)
    (before inner after : Gap) :
    document fields defaults (before.chars ++ (objectText inner pairs ++ after.chars)) =
      orMalformed (gather fields [] defaults pairs) := by
  have blank : skipBlank after.chars = [] := by
    have whole := skipBlank_gap after []
    rwa [List.append_nil] at whole
  rw [document, record_object sound names each]
  cases gather fields [] defaults pairs with
  | none => rfl
  | some record => simp [settled, bind, Except.bind, blank, orMalformed]

end PolishPlotter.Json
