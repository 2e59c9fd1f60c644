import PolishPlotter.Proofs.Settings.Reader
import PolishPlotter.Proofs.Settings.Usable

set_option autoImplicit false

namespace PolishPlotter.Settings

open Controls Json Screen

structure Setting where
  name : String
  Value : Type
  meaning : List Char → Option Value
  value : Settings → Value

def topLevel (values : Values) : List Setting :=
  [⟨"view", _, values.view, (·.view)⟩, ⟨"zoom_factor", _, values.real, (·.zoomFactor)⟩,
    ⟨"pan_rate", _, values.real, (·.panRate)⟩, ⟨"stack_limit", _, values.limit, (·.stackLimit)⟩,
    ⟨"colors", _, values.colors, (·.colors)⟩]

def coordinates (values : Values) : List Setting :=
  [⟨"xmin", _, values.real, (·.view.xmin)⟩, ⟨"xmax", _, values.real, (·.view.xmax)⟩,
    ⟨"ymin", _, values.real, (·.view.ymin)⟩, ⟨"ymax", _, values.real, (·.view.ymax)⟩]

def named (settings : List Setting) (o : Object) : List Entry :=
  (o.members.map Member.entry).filter fun e => e.1 ∈ settings.map Setting.name

def Reads (reader : Reader) (text : String) : Prop := ∃ loaded, ofText reader text = .ok loaded

/-- The laws of overrides, for the members of an object in a text. -/
structure Overrides (reader : Reader) (settings : List Setting) (text : Object → String) : Prop where
  reads : ∀ o : Object, Reads reader (text o) ↔ Reads reader (text ⟨o.inner, []⟩) ∧
    (∀ setting ∈ settings, (o.members.map Member.name).count setting.name ≤ 1) ∧
      ∀ m ∈ o.members, Reads reader (text ⟨o.inner, [m]⟩)
  order : ∀ o o' : Object, (named settings o).Perm (named settings o') →
    ofText reader (text o) = ofText reader (text o')
  twice : ∀ o : Object, ∀ setting ∈ settings,
    2 ≤ (o.members.map Member.name).count setting.name → ofText reader (text o) = .error .malformed
  absent : ∀ (o : Object) loaded, ofText reader (text o) = .ok loaded → ∀ setting ∈ settings,
    setting.name ∉ o.members.map Member.name →
      setting.value loaded.settings = setting.value default
  present : ∀ (o : Object) given, reader.ofText (text o) = .ok given → ∀ setting ∈ settings,
    ∀ m ∈ o.members, m.name = setting.name → setting.meaning m.value = some (setting.value given)
  alone : ∀ (o : Object) given, reader.ofText (text o) = .ok given →
    ∀ setting ∈ settings, ∀ m ∈ o.members, m.name = setting.name →
      ∀ inner own, reader.ofText (text ⟨inner, [m]⟩) = .ok own →
        setting.value given = setting.value own

section Laws

variable {reader : Reader} {values : Values} {settings : List Setting} {text : Object → String}
  {given : Settings} {o o' : Object}

/-- The laws of overrides before any repair, for what objects come to. -/
structure Overriding (settings : List Setting) (made : Object → Option Settings) : Prop where
  reads : ∀ o : Object, (made o).isSome = true ↔ (made ⟨o.inner, []⟩).isSome = true ∧
    (∀ setting ∈ settings, (o.members.map Member.name).count setting.name ≤ 1) ∧
      ∀ m ∈ o.members, (made ⟨o.inner, [m]⟩).isSome = true
  order : ∀ o o' : Object, (named settings o).Perm (named settings o') → made o = made o'
  twice : ∀ o : Object, ∀ setting ∈ settings,
    2 ≤ (o.members.map Member.name).count setting.name → made o = none
  absent : ∀ (o : Object) given, made o = some given → ∀ setting ∈ settings,
    setting.name ∉ o.members.map Member.name → setting.value given.validate = setting.value default
  present : ∀ (o : Object) given, made o = some given → ∀ setting ∈ settings, ∀ m ∈ o.members,
    m.name = setting.name → setting.meaning m.value = some (setting.value given)

theorem reads_iff {made : Option Settings} {source : String}
    (parses : reader.ofText source = orMalformed made) :
    Reads reader source ↔ made.isSome = true := by
  rw [Reads, ofText, parses]
  cases made <;> simp [orMalformed, Except.map]

theorem Overriding.overrides {made : Object → Option Settings}
    (overriding : Overriding settings made)
    (parses : ∀ o, reader.ofText (text o) = orMalformed (made o)) :
    Overrides reader settings text where
  reads o := by
    simp only [reads_iff (parses _)]
    exact overriding.reads o
  order o o' same := by
    rw [ofText, ofText, parses, parses, overriding.order o o' same]
  twice o setting member again := by
    rw [ofText, parses, overriding.twice o setting member again]
    rfl
  absent o loaded reads setting member out := by
    rw [ofText, parses] at reads
    cases found : made o with
    | none =>
      rw [found] at reads
      cases reads
    | some given =>
      rw [found] at reads
      cases reads
      exact overriding.absent o given found setting member out
  present o given reads := by
    rw [parses, orMalformed_eq_ok] at reads
    exact overriding.present o given reads
  alone o given reads setting member m inside same inner own other := by
    rw [parses, orMalformed_eq_ok] at reads other
    have here := overriding.present o given reads setting member m inside same
    have there := overriding.present _ own other setting member m (List.mem_singleton_self m) same
    exact Option.some.inj (here.symm.trans there)

theorem get_validate {p : Component Settings} (member : p ∈ parts values)
    (same : p.get given = p.get default) : p.get given.validate = p.get default := by
  revert p
  simp only [parts, List.forall_mem_cons]
  refine ⟨fun same => ?_, fun same => ?_, fun same => ?_, fun same => ?_, fun same => same,
    List.forall_mem_nil _⟩
  all_goals
    simp only [validate]
    split <;> first | exact same | rfl

theorem names_entries (ms : List Member) :
    (ms.map Member.entry).map Prod.fst = ms.map Member.name := List.map_map

theorem mem_entries {m : Member} {name : String} (inside : m ∈ o.members) (same : m.name = name) :
    (name, m.value) ∈ o.members.map Member.entry := by
  subst same
  exact List.mem_map_of_mem inside

theorem topLevel_eq (values : Values) : topLevel values =
    (parts values).map fun p => ⟨p.name, p.Value, p.meaning, p.get⟩ := rfl

theorem overriding_topLevel (values : Values) : Overriding (topLevel values) fun o =>
    merge (parts values) [] default (o.members.map Member.entry) where
  reads o := by
    rw [(lawful_parts values).isSome_merge, names_entries, List.forall_mem_map, topLevel_eq,
      List.forall_mem_map]
    exact (and_iff_right rfl).symm
  order o o' same := (lawful_parts values).merge_congr same default
  twice o setting member again := by
    obtain ⟨p, known, rfl⟩ := List.mem_map.mp (topLevel_eq values ▸ member)
    exact (lawful_parts values).merge_twice known (by rwa [names_entries])
  absent o given made setting member out := by
    obtain ⟨p, known, rfl⟩ := List.mem_map.mp (topLevel_eq values ▸ member)
    refine get_validate known (((lawful_parts values).merged made).absent p known ?_)
    rwa [names_entries]
  present o given made setting member m inside same := by
    obtain ⟨p, known, rfl⟩ := List.mem_map.mp (topLevel_eq values ▸ member)
    exact ((lawful_parts values).merged made).present p known m.value (mem_entries inside same)

theorem coordinates_eq (values : Values) : coordinates values =
    (viewParts values).map fun p => ⟨p.name, p.Value, p.meaning, fun t => p.get t.view⟩ := rfl

section View

variable (means : ∀ o : Object, values.view o.chars =
  merge (viewParts values) [] Viewport.default (o.members.map Member.entry))

include means

theorem merge_view {front back : List Entry}
    (made : merge (parts values) [] default (front ++ ("view", o.chars) :: back) = some given) :
    merge (viewParts values) [] Viewport.default (o.members.map Member.entry) =
      some given.view := by
  rw [← means]
  exact ((lawful_parts values).merged made).present (viewPart values) (List.mem_cons_self ..)
    o.chars (by simp [viewPart])

theorem isSome_view_alone (o : Object) :
    (merge (parts values) [] default [("view", o.chars)]).isSome =
      (merge (viewParts values) [] Viewport.default (o.members.map Member.entry)).isSome := by
  have found : (parts values).find? (·.name = "view") = some (viewPart values) := rfl
  rw [← means, merge, found]
  change ((values.view o.chars).bind _).isSome = _
  cases values.view o.chars <;> rfl

theorem isSome_view (front back : List Entry) (o : Object) :
    (merge (parts values) [] default (front ++ ("view", o.chars) :: back)).isSome = true ↔
      (merge (parts values) [] default
          (front ++ ("view", Object.chars ⟨o.inner, []⟩) :: back)).isSome = true ∧
        (merge (viewParts values) [] Viewport.default
          (o.members.map Member.entry)).isSome = true := by
  have bare : (merge (viewParts values) [] Viewport.default []).isSome = true := rfl
  rw [(lawful_parts values).isSome_merge, (lawful_parts values).isSome_merge]
  simp only [List.map_append, List.map_cons, List.forall_mem_append, List.forall_mem_cons,
    isSome_view_alone means, List.map_nil, bare]
  tauto

theorem overriding_coordinates (front back : List Entry) :
    Overriding (coordinates values) fun o =>
      merge (parts values) [] default (front ++ ("view", o.chars) :: back) where
  reads o := by
    rw [isSome_view means, (lawful_viewParts values).isSome_merge, names_entries, coordinates_eq,
      List.forall_mem_map, List.forall_mem_map]
    refine and_congr_right fun bare => and_congr_right fun _ => forall₂_congr fun m _ => ?_
    rw [isSome_view means front back ⟨o.inner, [m]⟩]
    exact (and_iff_right bare).symm
  order o o' same := by
    refine merge_replace fun p member named => ?_
    obtain rfl : p = viewPart values :=
      (lawful_parts values).eq_of_name member (List.mem_cons_self ..) named
    change values.view o.chars = values.view o'.chars
    rw [means, means]
    exact (lawful_viewParts values).merge_congr same Viewport.default
  twice o setting member again := by
    obtain ⟨p, known, rfl⟩ := List.mem_map.mp (coordinates_eq values ▸ member)
    rw [← names_entries] at again
    cases made : merge (parts values) [] default (front ++ ("view", o.chars) :: back) with
    | none => rfl
    | some given =>
      exact absurd (((lawful_viewParts values).merge_twice known again).symm.trans
        (merge_view means made)) nofun
  absent o given made setting member out := by
    obtain ⟨p, known, rfl⟩ := List.mem_map.mp (coordinates_eq values ▸ member)
    rw [← names_entries] at out
    have kept := ((lawful_viewParts values).merged (merge_view means made)).absent p known out
    change p.get (if viewUsable given.view then given.view else default.view) = _
    split
    · exact kept
    · rfl
  present o given made setting member m inside same := by
    obtain ⟨p, known, rfl⟩ := List.mem_map.mp (coordinates_eq values ▸ member)
    exact ((lawful_viewParts values).merged (merge_view means made)).present p known m.value
      (mem_entries inside same)

end View

end Laws

def withView (inner : Gap) (front back : List Member) (label : Label "view") (view : Object) :
    Object :=
  ⟨inner, front ++ ⟨"view", label, view.chars, view.wellFormed⟩ :: back⟩

theorem checked_default : checked default = ⟨default, []⟩ := by
  have zoomFactor := zoomFactorUsable_iff.mpr usable_default.zoomFactor
  have panRate := panRateUsable_iff.mpr usable_default.panRate
  have view := viewUsable_iff.mpr usable_default.view
  have stackLimit := Nat.one_le_iff_ne_zero.mp usable_default.stackLimit
  have kept : validate default = default := (mended_validate default).eq_of_usable usable_default
  simp only [checked, kept, repairs, zoomFactor, panRate, view, stackLimit, if_true, if_false,
    List.append_nil, List.map_nil]

section Sample

theorem spells_self {name : List Char} (plain : ∀ c ∈ name, Plain c) : Spells name name := by
  induction name with
  | nil => exact .nil
  | cons c rest ih =>
    obtain ⟨first, later⟩ := List.forall_mem_cons.mp plain
    exact .plain first (ih later)

def isPlain (c : Char) : Bool := !isControl c && c != '"' && c != '\\'

theorem plain_of_isPlain {c : Char} (plain : isPlain c = true) : Plain c := by
  simp only [isPlain, Bool.and_eq_true, Bool.not_eq_true', bne_iff_ne] at plain
  exact ⟨plain.1.1, plain.1.2, plain.2⟩

def close : Gap := ⟨[], nofun⟩

def simple (name : String) (plain : name.toList.all isPlain = true) : Label name where
  spelling := name.toList
  spells := spells_self fun c member => plain_of_isPlain (List.all_eq_true.mp plain c member)
  before := close
  between := close
  lead := close
  trail := close

theorem digits_singleton {d : Char} (digit : d.isDigit = true) : Digits [d] :=
  ⟨List.cons_ne_nil _ _, List.forall_mem_singleton.mpr digit⟩

def theme : Member where
  name := "theme"
  label := simple "theme" (by decide)
  value := listText close [⟨close, ['n', 'u', 'l', 'l'], close⟩]
  wellFormed := .list close (List.forall_mem_singleton.mpr .null)

def halfMore : Member where
  name := "zoom_factor"
  label := simple "zoom_factor" (by decide)
  value := ['1', '.', '5']
  wellFormed := .positive (.parts (.digits (digits_singleton rfl) (by decide)) (.digits (digits_singleton rfl)) .none)

def wide : Object where
  inner := close
  members := [⟨"xmax", simple "xmax" (by decide), ['9'],
    .positive (.parts (.digits (digits_singleton rfl) (by decide)) .none .none)⟩]

def sample (front back : List Member) : String :=
  documentText close close (withView close front back (simple "view" (by decide)) wide)

end Sample

end PolishPlotter.Settings
