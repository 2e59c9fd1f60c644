import PolishPlotter.Proofs.Json.Members
import PolishPlotter.Proofs.Json.Records

set_option autoImplicit false

namespace PolishPlotter.Json

variable {ρ : Type}

structure Facet (ρ : Type) where
  name : String
  Value : Type
  read : List Char → Except ReadError (Scanned Value)
  get : ρ → Value
  put : ρ → Value → ρ

def meaningOf {α : Type} (read : List Char → Except ReadError (Scanned α)) (text : List Char) :
    Option α :=
  meaning read (text.flatMap octetsOf)

namespace Facet

def field (p : Facet ρ) : RecordField ρ where
  name := p.name
  read record s := do
    let (v, s) ← p.read s
    .ok (p.put record v, s)

def component (p : Facet ρ) : Component ρ := ⟨p.name, p.Value, meaningOf p.read, p.get, p.put⟩

end Facet

structure Readable (facets : List (Facet ρ)) : Prop where
  ascii : ∀ p ∈ facets, ∀ c ∈ p.name.toList, IsAscii c
  settles : ∀ p ∈ facets, ∀ v, WellFormed v → Settles p.read v

variable {facets : List (Facet ρ)}

theorem meaning_field (p : Facet ρ) (record : ρ) (v : List Char) :
    meaning (p.field.read record) v = (meaning p.read v).map (p.put record) := by
  simp only [meaning, Facet.field]
  cases p.read (v ++ ['\x7d']) <;> rfl

theorem Readable.sound (readable : Readable facets) : Sound (facets.map Facet.field) := by
  rw [Sound, List.forall_mem_map]
  intro p member record v wellFormed
  obtain ⟨o, settles⟩ := readable.settles p member v wellFormed
  refine ⟨o.map (p.put record), fun gap s follows => ?_⟩
  simp only [Facet.field, settles gap s follows]
  cases o <;> rfl

theorem nameOf_spells {name spelling : List Char} (spells : Spells name spelling) :
    nameOf (spelling.flatMap octetsOf) = some (name.flatMap octetsOf) := by
  rw [nameOf, string_spells spells]

theorem Readable.find?_field (readable : Readable facets) (name : String) :
    (facets.map Facet.field).find? (·.name.toList = name.toList.flatMap octetsOf) =
      (facets.find? (·.name = name)).map Facet.field := by
  rw [List.find?_map]
  congr 1
  refine List.find?_congr fun p member => ?_
  have same : p.name.toList = name.toList.flatMap octetsOf ↔ p.name = name := by
    rw [eq_comm, octets_eq_iff (readable.ascii p member), String.toList_inj, eq_comm]
  simp only [Function.comp_apply, Facet.field, same]

theorem find?_component (facets : List (Facet ρ)) (name : String) :
    (facets.map Facet.component).find? (·.name = name) =
      (facets.find? (·.name = name)).map Facet.component := by
  rw [List.find?_map]
  rfl

theorem Readable.gather_eq (readable : Readable facets) (seen : List String) (record : ρ)
    (ms : List Member) :
    gather (facets.map Facet.field) seen record (ms.map fun m => m.pair.octets) =
      merge (facets.map Facet.component) seen record (ms.map Member.entry) := by
  induction ms generalizing seen record with
  | nil => rfl
  | cons m ms ih =>
    have named : nameOf m.pair.octets.name = some (m.name.toList.flatMap octetsOf) :=
      nameOf_spells m.label.spells
    simp only [List.map_cons, gather, named, readable.find?_field]
    rw [Member.entry, merge, find?_component]
    cases facets.find? (·.name = m.name) with
    | none => exact ih seen record
    | some p =>
      have seen? : seen.contains p.field.name = true ↔ p.name ∈ seen := List.contains_iff_mem
      simp only [Option.map_some, meaning_field, seen?]
      change (if p.name ∈ seen then none else _) = if p.name ∈ seen then none else _
      split
      · rfl
      · change (Option.map _ (meaningOf p.read m.value)).bind _ = (meaningOf p.read m.value).bind _
        rw [Option.bind_map]
        congr 1
        funext v
        exact ih (p.name :: seen) (p.put record v)

theorem Object.octets_chars (o : Object) :
    o.chars.flatMap octetsOf = objectText o.inner (o.members.map fun m => m.pair.octets) := by
  rw [chars, octets_objectText, List.map_map]
  rfl

theorem Object.names (o : Object) :
    ∀ pair ∈ o.members.map fun m => m.pair.octets, Body pair.name := by
  rw [List.forall_mem_map]
  exact fun m _ => m.label.spells.body.octets

theorem Object.each (o : Object) :
    ∀ pair ∈ o.members.map fun m => m.pair.octets, WellFormed pair.value.text := by
  rw [List.forall_mem_map]
  exact fun m _ => m.wellFormed.octets

theorem Readable.meaning_record (readable : Readable facets) (defaults : ρ) (o : Object) :
    meaning (record (facets.map Facet.field) defaults) (o.chars.flatMap octetsOf) =
      merge (facets.map Facet.component) [] defaults (o.members.map Member.entry) := by
  have reads := record_object readable.sound o.names o.each defaults ⟨[], nofun⟩ o.inner ['\x7d']
  rw [readable.gather_eq] at reads
  rw [meaning, o.octets_chars]
  change record _ _ (objectText o.inner _ ++ ['\x7d']) = _ at reads
  rw [reads]
  cases merge (facets.map Facet.component) [] defaults (o.members.map Member.entry) <;> rfl

theorem Readable.document_eq (readable : Readable facets) (defaults : ρ) (before after : Gap)
    (o : Object) :
    document (facets.map Facet.field) defaults
        ((before.chars ++ (o.chars ++ after.chars)).flatMap octetsOf) =
      orMalformed (merge (facets.map Facet.component) [] defaults (o.members.map Member.entry)) := by
  rw [List.flatMap_append, List.flatMap_append, before.octets, after.octets, o.octets_chars,
    document_object readable.sound o.names o.each, readable.gather_eq]

end PolishPlotter.Json
