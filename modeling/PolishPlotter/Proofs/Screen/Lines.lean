import PolishPlotter.Proofs.Screen.Rendering

set_option autoImplicit false

namespace PolishPlotter.Screen

def visible (text : String) : String := .ofList (shown .text text.toList)

def Plain (text : String) : Prop := ∀ c ∈ text.toList, c ≠ '\n' ∧ c ≠ '\x1b'

structure Line (text seen : List Char) : Prop where
  whole : '\n' ∉ text
  shown (back : List Char) : shown .text (text ++ back) = seen ++ shown .text back

variable {front back seen rest : List Char} {text other separator : String}
  {painted : String} {paint : Paint} {lines texts : List String}

namespace Plain

theorem append (first : Plain text) (second : Plain other) : Plain (text ++ other) := by
  intro c member
  rw [String.toList_append] at member
  cases List.mem_append.mp member with
  | inl before => exact first c before
  | inr after => exact second c after

theorem intercalate (between : Plain separator) (all : ∀ text ∈ texts, Plain text) :
    Plain (separator.intercalate texts) := by
  induction texts with
  | nil =>
    rw [String.intercalate_nil]
    exact nofun
  | cons text rest ih =>
    obtain ⟨first, later⟩ := List.forall_mem_cons.mp all
    cases rest with
    | nil => rwa [String.intercalate_singleton]
    | cons next rest =>
      rw [String.intercalate_cons_cons]
      exact (first.append between).append (ih later)

end Plain

namespace Line

theorem of_plain (plain : Plain text) : Line text.toList text.toList where
  whole broken := (plain '\n' broken).1 rfl
  shown := shown_plain fun c member => (plain c member).2

theorem append (first : Line front seen) (second : Line back rest) :
    Line (front ++ back) (seen ++ rest) where
  whole broken := (List.mem_append.mp broken).elim first.whole second.whole
  shown more := by rw [List.append_assoc, first.shown, second.shown, List.append_assoc]

theorem of_wrapped (wrapped : Wrapped text painted) (plain : Plain text) :
    Line painted.toList text.toList where
  whole := wrapped.whole fun broken => (plain '\n' broken).1 rfl
  shown := wrapped.shown fun c member => (plain c member).2

theorem visible_eq (line : Line text.toList seen) : visible text = .ofList seen := by
  have alone : Screen.shown .text (text.toList ++ []) = seen ++ [] := line.shown []
  rw [List.append_nil, List.append_nil] at alone
  rw [visible, alone]

end Line

theorem visible_join (all : ∀ line ∈ lines, ∃ seen, Line line.toList seen) :
    visible (.join (lines.map (· ++ "\n"))) = .join (lines.map fun line => visible line ++ "\n") := by
  induction lines with
  | nil => rfl
  | cons line rest ih =>
    obtain ⟨⟨seen, first⟩, later⟩ := List.forall_mem_cons.mp all
    have next : shown .text (['\n'] ++ (String.join (rest.map (· ++ "\n"))).toList) =
        '\n' :: shown .text (String.join (rest.map (· ++ "\n"))).toList := rfl
    have others := congrArg String.toList (ih later)
    rw [visible, String.toList_ofList] at others
    rw [List.map_cons, String.join_cons, List.map_cons, String.join_cons, first.visible_eq,
      ← String.toList_inj, visible, String.toList_ofList, String.toList_append,
      String.toList_append, List.append_assoc, first.shown]
    change seen ++ shown .text (['\n'] ++ (String.join (rest.map (· ++ "\n"))).toList) = _
    rw [next, others]
    simp

namespace Canvas

variable {c : Canvas} {row : List (Option Mark)}

def rowTexts (c : Canvas) (paint : Paint) : List String :=
  (chunks c.columns c.cells.toList).map fun row => .join (row.map (cellText paint))

theorem render_eq (c : Canvas) (paint : Paint) :
    c.render paint = .join ((c.rowTexts paint).map (· ++ "\n")) := by
  rw [render, rowTexts, List.map_map]
  rfl

section Text

variable (wraps : paint.Wraps)

include wraps

theorem line_cell {cell : Option Mark} (legible : ∀ m, cell = some m → m.char ∈ Stroke.glyphs) :
    Line (cellText paint cell).toList [glyph cell] := by
  cases cell with
  | none =>
    have blank : Plain " " := by simp [Plain]
    exact .of_plain blank
  | some m =>
    have plain : Plain (String.singleton m.char) := by
      intro c member
      rw [String.toList_singleton, List.mem_singleton] at member
      subst member
      exact ⟨ne_of_mem_glyphs (legible m rfl) (by decide),
        ne_of_mem_glyphs (legible m rfl) (by decide)⟩
    have colored := Line.of_wrapped (wraps.colored m.color _) plain
    rwa [String.toList_singleton] at colored

theorem line_row (legible : Legible row) :
    Line (row.flatMap fun cell => (cellText paint cell).toList) (row.map glyph) := by
  induction row with
  | nil => exact ⟨nofun, fun back => rfl⟩
  | cons cell rest ih =>
    have first : ∀ m, cell = some m → m.char ∈ Stroke.glyphs :=
      fun m same => legible m (same ▸ List.mem_cons_self ..)
    have later : Legible rest := fun m member => legible m (List.mem_cons_of_mem _ member)
    exact (line_cell wraps first).append (ih later)

end Text

namespace Grid

variable (grid : c.Grid)

include grid

theorem mem_chunks {row : List (Option Mark)} (member : row ∈ chunks c.columns c.cells.toList)
    (inked : c.Inked) : Legible row := by
  rw [grid.chunks_cells] at member
  obtain ⟨i, -, rfl⟩ := List.mem_map.mp member
  intro m inside
  exact inked m (Array.mem_toList_iff.mp (List.mem_of_mem_drop (List.mem_of_mem_take inside)))

theorem line_rowTexts (wraps : paint.Wraps) (inked : c.Inked) (member : text ∈ c.rowTexts paint) :
    ∃ seen, Line text.toList seen := by
  obtain ⟨row, inside, rfl⟩ := List.mem_map.mp member
  have line := line_row wraps (grid.mem_chunks inside inked)
  rw [String.toList_join, List.flatMap_map]
  exact ⟨_, line⟩

theorem visible_rowTexts (wraps : paint.Wraps) (inked : c.Inked) :
    (c.rowTexts paint).map visible = c.lines.map .ofList := by
  have same : ∀ row ∈ chunks c.columns c.cells.toList,
      (visible ∘ fun row => .join (row.map (cellText paint))) row = .ofList (row.map glyph) := by
    intro row member
    have line := line_row wraps (grid.mem_chunks member inked)
    refine Line.visible_eq ?_
    rw [String.toList_join, List.flatMap_map]
    exact line
  rw [rowTexts, List.map_map, List.map_congr_left same, grid.chunks_cells, List.map_map, lines,
    List.map_map]
  refine List.map_congr_left fun row member => ?_
  exact congrArg String.ofList (grid.row_eq (List.mem_range.mp member))

end Grid

end Canvas

end PolishPlotter.Screen
