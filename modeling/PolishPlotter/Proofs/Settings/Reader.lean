import PolishPlotter.Proofs.Json.Facets
import PolishPlotter.Settings.Parse

set_option autoImplicit false

namespace PolishPlotter.Settings

open Controls Json Screen

/-- What the values of members say, as far as they can be read. -/
structure Values where
  real : List Char → Option Float
  limit : List Char → Option Nat
  colors : List Char → Option (Vector Color slotCount)
  view : List Char → Option (Viewport Float)

def viewParts (values : Values) : List (Component (Viewport Float)) :=
  [⟨"xmin", Float, values.real, (·.xmin), fun v x => { v with xmin := x }⟩,
    ⟨"xmax", Float, values.real, (·.xmax), fun v x => { v with xmax := x }⟩,
    ⟨"ymin", Float, values.real, (·.ymin), fun v y => { v with ymin := y }⟩,
    ⟨"ymax", Float, values.real, (·.ymax), fun v y => { v with ymax := y }⟩]

def viewPart (values : Values) : Component Settings :=
  ⟨"view", Viewport Float, values.view, (·.view), fun t v => { t with view := v }⟩

def parts (values : Values) : List (Component Settings) :=
  [viewPart values,
    ⟨"zoom_factor", Float, values.real, (·.zoomFactor), fun t x => { t with zoomFactor := x }⟩,
    ⟨"pan_rate", Float, values.real, (·.panRate), fun t x => { t with panRate := x }⟩,
    ⟨"stack_limit", Nat, values.limit, (·.stackLimit), fun t n => { t with stackLimit := n }⟩,
    ⟨"colors", Vector Color slotCount, values.colors, (·.colors),
      fun t c => { t with colors := c }⟩]

theorem lawful_viewParts (values : Values) : Lawful (viewParts values) where
  distinct := by simp [viewParts]
  get_put := by simp [viewParts]
  get_put_of_ne := by simp [viewParts]
  ext a b same := by
    simp only [viewParts, List.forall_mem_cons] at same
    obtain ⟨xmin, xmax, ymin, ymax, -⟩ := same
    cases a
    cases b
    simp_all

theorem lawful_parts (values : Values) : Lawful (parts values) where
  distinct := by simp [parts, viewPart]
  get_put := by simp [parts, viewPart]
  get_put_of_ne := by simp [parts, viewPart]
  ext a b same := by
    simp only [parts, List.forall_mem_cons] at same
    obtain ⟨view, zoomFactor, panRate, stackLimit, colors, -⟩ := same
    cases a
    cases b
    simp_all [viewPart]

def documentText (before after : Gap) (o : Object) : String :=
  .ofList (before.chars ++ (o.chars ++ after.chars))

/-- An object is read from its first member to its last, over the defaults: the settings from a text, and
the view from a value. Where that fails, the text is malformed. -/
structure Reader.Documented (reader : Reader) (values : Values) : Prop where
  settings : ∀ before after o, reader.ofText (documentText before after o) =
    orMalformed (merge (parts values) [] default (o.members.map Member.entry))
  view : ∀ o : Object, values.view o.chars =
    merge (viewParts values) [] Viewport.default (o.members.map Member.entry)

section Json

variable {v : List Char}

def Values.json : Values where
  real := meaningOf Json.real
  limit := meaningOf (natural (Nat.pow 2 64))
  colors := meaningOf colorTable
  view := meaningOf (record viewFields Viewport.default)

def viewFacets : List (Facet (Viewport Float)) :=
  [⟨"xmin", Float, real, (·.xmin), fun v x => { v with xmin := x }⟩,
    ⟨"xmax", Float, real, (·.xmax), fun v x => { v with xmax := x }⟩,
    ⟨"ymin", Float, real, (·.ymin), fun v y => { v with ymin := y }⟩,
    ⟨"ymax", Float, real, (·.ymax), fun v y => { v with ymax := y }⟩]

def facets : List (Facet Settings) :=
  [⟨"view", Viewport Float, record viewFields Viewport.default, (·.view),
      fun t v => { t with view := v }⟩,
    ⟨"zoom_factor", Float, real, (·.zoomFactor), fun t x => { t with zoomFactor := x }⟩,
    ⟨"pan_rate", Float, real, (·.panRate), fun t x => { t with panRate := x }⟩,
    ⟨"stack_limit", Nat, natural (Nat.pow 2 64), (·.stackLimit),
      fun t n => { t with stackLimit := n }⟩,
    ⟨"colors", Vector Color slotCount, colorTable, (·.colors), fun t c => { t with colors := c }⟩]

theorem viewFields_eq : viewFacets.map Facet.field = viewFields := rfl

theorem fields_eq : facets.map Facet.field = fields := rfl

theorem viewParts_json : viewFacets.map Facet.component = viewParts .json := rfl

theorem parts_json : facets.map Facet.component = parts .json := rfl

def colorOf : List Nat → Option Color
  | [r, g, b] => some ⟨.ofNat r, .ofNat g, .ofNat b⟩
  | _ => none

def colorsOf (colors : List Color) : Option (Vector Color slotCount) :=
  if whole : colors.length = slotCount then some ⟨colors.toArray, whole⟩ else none

theorem color_settles (wellFormed : WellFormed v) : Settles color v := by
  obtain ⟨o, settles⟩ := list_settles (fun _ => natural_settles 256) 3 wellFormed
  refine ⟨o.bind colorOf, fun gap s follows => ?_⟩
  rw [color, settles gap s follows]
  cases o with
  | none => rfl
  | some levels => rcases levels with _ | ⟨r, _ | ⟨g, _ | ⟨b, _ | _⟩⟩⟩ <;> rfl

theorem colorTable_settles (wellFormed : WellFormed v) : Settles colorTable v := by
  obtain ⟨o, settles⟩ := list_settles (fun _ => color_settles) slotCount wellFormed
  refine ⟨o.bind colorsOf, fun gap s follows => ?_⟩
  rw [colorTable, settles gap s follows]
  cases o with
  | none => rfl
  | some colors => rcases colors with _ | ⟨a, _ | ⟨b, _ | ⟨c, _ | ⟨d, _ | _⟩⟩⟩⟩ <;> rfl

theorem readable_viewFacets : Readable viewFacets where
  ascii := by simp [viewFacets, IsAscii]
  settles := by
    simp only [viewFacets, List.forall_mem_cons]
    exact ⟨fun _ => real_settles, fun _ => real_settles, fun _ => real_settles,
      fun _ => real_settles, List.forall_mem_nil _⟩

theorem readable_facets : Readable facets where
  ascii := by simp [facets, IsAscii]
  settles := by
    simp only [facets, List.forall_mem_cons]
    exact ⟨fun _ => record_settles readable_viewFacets.sound _, fun _ => real_settles,
      fun _ => real_settles, fun _ => natural_settles _, fun _ => colorTable_settles,
      List.forall_mem_nil _⟩

theorem Reader.json_documented : Reader.json.Documented .json where
  settings before after o := by
    change parse _ = _
    rw [parse, ← fields_eq, ← parts_json, octetsOfText, documentText, String.toList_ofList,
      readable_facets.document_eq]
  view o := by
    rw [← viewParts_json, ← readable_viewFacets.meaning_record, viewFields_eq]
    rfl

end Json

end PolishPlotter.Settings
