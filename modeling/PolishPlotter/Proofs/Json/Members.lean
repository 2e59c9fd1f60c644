import PolishPlotter.Proofs.Json.Grammar

set_option autoImplicit false

namespace PolishPlotter.Json

variable {ρ : Type}

/-- A part of a record, and what a text says about it. -/
structure Component (ρ : Type) where
  name : String
  Value : Type
  meaning : List Char → Option Value
  get : ρ → Value
  put : ρ → Value → ρ

/-- Parts that make up a record and do not overlap. -/
structure Lawful (parts : List (Component ρ)) : Prop where
  distinct : (parts.map Component.name).Nodup
  get_put : ∀ p ∈ parts, ∀ record v, p.get (p.put record v) = v
  get_put_of_ne : ∀ p ∈ parts, ∀ q ∈ parts, p.name ≠ q.name →
    ∀ record v, p.get (q.put record v) = p.get record
  ext : ∀ a b : ρ, (∀ p ∈ parts, p.get a = p.get b) → a = b

abbrev Entry := String × List Char

def Member.entry (m : Member) : Entry := (m.name, m.value)

def known (parts : List (Component ρ)) (entries : List Entry) : List Entry :=
  entries.filter fun e => e.1 ∈ parts.map Component.name

/-- What members make of a record, one after the other. A part may be named once, whatever its value
says; other members are passed over. -/
def merge (parts : List (Component ρ)) : List String → ρ → List Entry → Option ρ
  | _, record, [] => some record
  | seen, record, (name, text) :: rest =>
    match parts.find? (·.name = name) with
    | none => merge parts seen record rest
    | some p =>
      if p.name ∈ seen then none
      else (p.meaning text).bind fun v => merge parts (p.name :: seen) (p.put record v) rest

def orMalformed {α : Type} : Option α → Except ReadError α
  | some x => .ok x
  | none => .error .malformed

theorem orMalformed_eq_ok {α : Type} {o : Option α} {x : α} :
    orMalformed o = .ok x ↔ o = some x := by
  cases o <;> simp [orMalformed]

variable {parts : List (Component ρ)}

variable {seen : List String} {record result : ρ} {entries others : List Entry}

theorem merge_known (parts : List (Component ρ)) (seen : List String) (record : ρ)
    (entries : List Entry) :
    merge parts seen record (known parts entries) = merge parts seen record entries := by
  induction entries generalizing seen record with
  | nil => rfl
  | cons e rest ih =>
    obtain ⟨name, text⟩ := e
    cases found : parts.find? (·.name = name) with
    | none =>
      have unknown : name ∉ parts.map Component.name := by
        simpa [List.find?_eq_none] using found
      simp only [known, List.filter_cons, unknown, decide_false, merge, found]
      exact ih seen record
    | some p =>
      have named : name ∈ parts.map Component.name := by
        have same : p.name = name := by simpa using List.find?_some found
        exact same ▸ List.mem_map_of_mem (List.mem_of_find?_eq_some found)
      simp only [known, List.filter_cons, named, decide_true, if_true, merge, found]
      congr 1
      congr 1
      funext v
      exact ih (p.name :: seen) (p.put record v)

structure Merged (parts : List (Component ρ)) (record : ρ) (entries : List Entry) (result : ρ) :
    Prop where
  once : ∀ p ∈ parts, (entries.map Prod.fst).count p.name ≤ 1
  present : ∀ p ∈ parts, ∀ text, (p.name, text) ∈ entries → p.meaning text = some (p.get result)
  absent : ∀ p ∈ parts, p.name ∉ entries.map Prod.fst → p.get result = p.get record

theorem Merged.perm (merged : Merged parts record entries result) (same : entries.Perm others) :
    Merged parts record others result where
  once p member := by
    rw [← (same.map Prod.fst).count_eq]
    exact merged.once p member
  present p member text inside := merged.present p member text (same.mem_iff.mpr inside)
  absent p member out := merged.absent p member (by rwa [(same.map Prod.fst).mem_iff])

theorem Lawful.eq_of_name (lawful : Lawful parts) {p q : Component ρ} (one : p ∈ parts)
    (two : q ∈ parts) (same : p.name = q.name) : p = q :=
  List.inj_on_of_nodup_map lawful.distinct one two same

theorem merged_nil (lawful : Lawful parts) :
    Merged parts record [] result ↔ record = result := by
  constructor
  · exact fun merged =>
      lawful.ext _ _ fun p member => (merged.absent p member List.not_mem_nil).symm
  · rintro rfl
    exact ⟨fun _ _ => Nat.zero_le _, nofun, fun _ _ _ => rfl⟩

theorem merged_cons_unknown {name : String} {text : List Char}
    (unknown : ∀ p ∈ parts, p.name ≠ name) :
    Merged parts record ((name, text) :: entries) result ↔ Merged parts record entries result := by
  have names : ∀ p ∈ parts, p.name ∉ ((name, text) :: entries).map Prod.fst ↔
      p.name ∉ entries.map Prod.fst := fun p member => by
    rw [List.map_cons, List.mem_cons, not_or]
    exact and_iff_right (unknown p member)
  have counts : ∀ p ∈ parts, (((name, text) :: entries).map Prod.fst).count p.name =
      (entries.map Prod.fst).count p.name := fun p member => by
    rw [List.map_cons, List.count_cons_of_ne (unknown p member).symm]
  constructor
  · intro merged
    refine ⟨fun p member => ?_, fun p member text inside => ?_, fun p member out => ?_⟩
    · exact counts p member ▸ merged.once p member
    · exact merged.present p member text (List.mem_cons_of_mem _ inside)
    · exact merged.absent p member ((names p member).mpr out)
  · intro merged
    refine ⟨fun p member => ?_, fun p member text inside => ?_, fun p member out => ?_⟩
    · exact (counts p member).symm ▸ merged.once p member
    · rcases List.mem_cons.mp inside with same | later
      · exact absurd (congrArg Prod.fst same) (unknown p member)
      · exact merged.present p member text later
    · exact merged.absent p member ((names p member).mp out)

theorem merged_cons_known (lawful : Lawful parts) {p : Component ρ} (known : p ∈ parts)
    {text : List Char} : Merged parts record ((p.name, text) :: entries) result ↔
      ∃ v, p.meaning text = some v ∧ Merged parts (p.put record v) entries result ∧
        p.name ∉ entries.map Prod.fst := by
  constructor
  · intro merged
    have means := merged.present p known text (List.mem_cons_self ..)
    have single : p.name ∉ entries.map Prod.fst := by
      have count := merged.once p known
      rw [List.map_cons, List.count_cons_self] at count
      exact List.count_eq_zero.mp (by omega)
    refine ⟨p.get result, means, ⟨fun q member => ?_, fun q member text inside => ?_,
      fun q member out => ?_⟩, single⟩
    · have count := merged.once q member
      rw [List.map_cons, List.count_cons] at count
      omega
    · exact merged.present q member text (List.mem_cons_of_mem _ inside)
    · by_cases same : q.name = p.name
      · rw [lawful.eq_of_name member known same, lawful.get_put p known]
      · rw [lawful.get_put_of_ne q member p known same]
        refine merged.absent q member ?_
        rw [List.map_cons, List.mem_cons, not_or]
        exact ⟨same, out⟩
  · rintro ⟨v, means, merged, single⟩
    have given : p.get result = v := by
      rw [merged.absent p known single, lawful.get_put p known]
    refine ⟨fun q member => ?_, fun q member text inside => ?_, fun q member out => ?_⟩
    · rw [List.map_cons]
      by_cases same : q.name = p.name
      · rw [same, List.count_cons_self, List.count_eq_zero.mpr single]
      · rw [List.count_cons_of_ne (Ne.symm same)]
        exact merged.once q member
    · rcases List.mem_cons.mp inside with same | later
      · cases lawful.eq_of_name member known (congrArg Prod.fst same)
        cases same
        rw [means, given]
      · exact merged.present q member text later
    · rw [List.map_cons, List.mem_cons, not_or] at out
      rw [merged.absent q member out.2, lawful.get_put_of_ne q member p known out.1]

-- By induction over the members, so for any parts that were named before; none of them may come again.
theorem Lawful.merge_eq_some_iff (lawful : Lawful parts) :
    merge parts seen record entries = some result ↔
      Merged parts record entries result ∧
        ∀ p ∈ parts, p.name ∈ seen → p.name ∉ entries.map Prod.fst := by
  induction entries generalizing seen record with
  | nil =>
    rw [merge, Option.some_inj, merged_nil lawful]
    exact (and_iff_left fun _ _ _ => List.not_mem_nil).symm
  | cons e rest ih =>
    obtain ⟨name, text⟩ := e
    rw [merge]
    cases found : parts.find? (·.name = name) with
    | none =>
      have unknown : ∀ p ∈ parts, p.name ≠ name := by
        simpa [List.find?_eq_none] using found
      simp only [ih, merged_cons_unknown unknown, List.map_cons, List.mem_cons, not_or]
      refine and_congr_right fun _ => forall₂_congr fun p member => imp_congr_right fun _ => ?_
      exact (and_iff_right (unknown p member)).symm
    | some p =>
      have member := List.mem_of_find?_eq_some found
      obtain rfl : p.name = name := by simpa using List.find?_some found
      simp only [merged_cons_known lawful member]
      split
      · next again =>
        refine iff_of_false nofun ?_
        rintro ⟨-, fresh⟩
        exact fresh p member again (List.mem_cons_self ..)
      · next fresh =>
        simp only [Option.bind_eq_some_iff, ih]
        constructor
        · rintro ⟨v, means, merged, apart⟩
          refine ⟨⟨v, means, merged, apart p member (List.mem_cons_self ..)⟩, fun q other old => ?_⟩
          rw [List.map_cons, List.mem_cons, not_or]
          refine ⟨fun (same : q.name = p.name) => ?_, apart q other (List.mem_cons_of_mem _ old)⟩
          rw [same] at old
          exact fresh old
        · rintro ⟨⟨v, means, merged, single⟩, apart⟩
          refine ⟨v, means, merged, fun q other old => ?_⟩
          rcases List.mem_cons.mp old with same | older
          · rwa [same]
          · exact fun later => apart q other older (List.mem_cons_of_mem _ later)

theorem Lawful.merge_congr (lawful : Lawful parts)
    (same : (known parts entries).Perm (known parts others)) (record : ρ) :
    merge parts [] record entries = merge parts [] record others := by
  have fresh : ∀ es : List Entry, ∀ p ∈ parts, p.name ∈ [] → p.name ∉ es.map Prod.fst :=
    fun _ _ _ => nofun
  rw [← merge_known, ← merge_known parts [] record others]
  refine Option.ext fun result => ?_
  rw [lawful.merge_eq_some_iff, lawful.merge_eq_some_iff, and_iff_left (fresh _),
    and_iff_left (fresh _)]
  exact ⟨fun merged => merged.perm same, fun merged => merged.perm same.symm⟩

theorem Lawful.merged (lawful : Lawful parts)
    (made : merge parts [] record entries = some result) : Merged parts record entries result :=
  (lawful.merge_eq_some_iff.mp made).1

theorem Lawful.merge_twice (lawful : Lawful parts) {p : Component ρ} (member : p ∈ parts)
    (again : 2 ≤ (entries.map Prod.fst).count p.name) : merge parts [] record entries = none := by
  cases made : merge parts [] record entries with
  | none => rfl
  | some result =>
    have once := (lawful.merged made).once p member
    omega

theorem exists_merge
    (once : ∀ p ∈ parts, (entries.map Prod.fst).count p.name ≤ 1)
    (fresh : ∀ p ∈ parts, p.name ∈ seen → p.name ∉ entries.map Prod.fst)
    (means : ∀ p ∈ parts, ∀ text, (p.name, text) ∈ entries → (p.meaning text).isSome = true) :
    (merge parts seen record entries).isSome = true := by
  induction entries generalizing seen record with
  | nil => rfl
  | cons e rest ih =>
    obtain ⟨name, text⟩ := e
    have later : ∀ p ∈ parts, ∀ text, (p.name, text) ∈ rest → (p.meaning text).isSome = true :=
      fun p member text inside => means p member text (List.mem_cons_of_mem _ inside)
    have fewer : ∀ p ∈ parts, (rest.map Prod.fst).count p.name ≤ 1 :=
      fun p member => List.count_le_count_cons.trans (once p member)
    rw [merge]
    cases found : parts.find? (·.name = name) with
    | none => exact ih fewer (fun p member old inside =>
        fresh p member old (List.mem_cons_of_mem _ inside)) later
    | some p =>
      have member := List.mem_of_find?_eq_some found
      obtain rfl : p.name = name := by simpa using List.find?_some found
      have unseen : p.name ∉ seen := fun old => fresh p member old (List.mem_cons_self ..)
      obtain ⟨v, given⟩ := Option.isSome_iff_exists.mp (means p member text (List.mem_cons_self ..))
      simp only [unseen, if_false, given, Option.bind_some]
      refine ih fewer (fun q other old inside => ?_) later
      rcases List.mem_cons.mp old with same | older
      · have count := once q other
        rw [List.map_cons, same, List.count_cons_self] at count
        rw [same] at inside
        have positive := List.count_pos_iff.mpr inside
        omega
      · exact fresh q other older (List.mem_cons_of_mem _ inside)

theorem Lawful.isSome_merge (lawful : Lawful parts) :
    (merge parts [] record entries).isSome = true ↔
      (∀ p ∈ parts, (entries.map Prod.fst).count p.name ≤ 1) ∧
        ∀ e ∈ entries, (merge parts [] record [e]).isSome = true := by
  constructor
  · intro made
    obtain ⟨result, made⟩ := Option.isSome_iff_exists.mp made
    have merged := lawful.merged made
    refine ⟨merged.once, fun e inside => exists_merge (fun p _ => ?_) nofun ?_⟩
    · exact List.count_le_length
    · intro p member text same
      rw [merged.present p member text (List.mem_singleton.mp same ▸ inside)]
      rfl
  · rintro ⟨once, each⟩
    refine exists_merge once nofun fun p member text inside => ?_
    obtain ⟨result, made⟩ := Option.isSome_iff_exists.mp (each _ inside)
    rw [(lawful.merged made).present p member text (List.mem_singleton_self _)]
    rfl

theorem merge_replace {name : String} {text text' : List Char} {front : List Entry}
    (same : ∀ p ∈ parts, p.name = name → p.meaning text = p.meaning text') :
    merge parts seen record (front ++ (name, text) :: entries) =
      merge parts seen record (front ++ (name, text') :: entries) := by
  induction front generalizing seen record with
  | nil =>
    simp only [List.nil_append, merge]
    cases found : parts.find? (·.name = name) with
    | none => rfl
    | some p =>
      have means := same p (List.mem_of_find?_eq_some found) (by simpa using List.find?_some found)
      simp only [means]
  | cons e front ih =>
    obtain ⟨other, value⟩ := e
    simp only [List.cons_append, merge, ih]

end PolishPlotter.Json
