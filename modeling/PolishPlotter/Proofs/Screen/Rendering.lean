import PolishPlotter.Proofs.Screen.Drawing
import PolishPlotter.Proofs.Screen.Escape

set_option autoImplicit false

namespace PolishPlotter.Screen.Canvas

section Chunks

variable {α : Type} {columns rows : Nat} {cells : List α}

theorem chunks_eq (positive : 0 < columns) (size : cells.length = columns * rows) :
    chunks columns cells =
      (List.range rows).map fun row => (cells.drop (row * columns)).take columns := by
  induction rows generalizing cells with
  | zero =>
    rw [List.length_eq_zero_iff.mp size]
    simp [chunks]
  | succ rows ih =>
    obtain ⟨columns, rfl⟩ := Nat.exists_eq_add_one.mpr positive
    cases cells with
    | nil =>
      rw [List.length_nil, Nat.mul_add, Nat.mul_one] at size
      omega
    | cons first rest =>
      have left : (rest.drop columns).length = (columns + 1) * rows := by
        rw [List.length_cons, Nat.mul_add, Nat.mul_one] at size
        rw [List.length_drop]
        omega
      rw [chunks, Nat.add_sub_cancel, ih left, List.range_succ_eq_map, List.map_cons, List.map_map]
      congr 1
      · rw [Nat.zero_mul, List.drop_zero, List.take_succ_cons]
      · refine List.map_congr_left fun row _ => ?_
        have next : (row + 1) * (columns + 1) = columns + row * (columns + 1) + 1 := by
          rw [Nat.succ_mul]
          omega
        rw [Function.comp_apply, Nat.succ_eq_add_one, next, List.drop_succ_cons, List.drop_drop]

end Chunks

def glyph (cell : Option Mark) : Char := (cell.map Mark.char).getD ' '

def lines (c : Canvas) : List (List Char) :=
  (List.range c.rows).map fun row => (List.range c.columns).map fun col => (c.get? col row).getD ' '

def Legible (cells : List (Option Mark)) : Prop := ∀ m, some m ∈ cells → m.char ∈ Stroke.glyphs

variable {paint : Paint} {c : Canvas} {row : List (Option Mark)} {table : List (List (Option Mark))}

theorem ne_of_mem_glyphs {g other : Char} (member : g ∈ Stroke.glyphs)
    (apart : other ∉ Stroke.glyphs) : g ≠ other := by
  rintro rfl
  exact apart member

section Text

variable (wraps : paint.Wraps)

include wraps

theorem shown_cellText {cell : Option Mark} (legible : ∀ m, cell = some m → m.char ∈ Stroke.glyphs)
    (back : List Char) :
    shown .text ((cellText paint cell).toList ++ back) = glyph cell :: shown .text back := by
  cases cell with
  | none =>
    rw [cellText]
    rfl
  | some m =>
    have plain : ∀ c ∈ (String.singleton m.char).toList, c ≠ '\x1b' := by
      intro c member
      rw [String.toList_singleton, List.mem_singleton] at member
      subst member
      exact ne_of_mem_glyphs (legible m rfl) (by decide)
    rw [cellText, (wraps.colored m.color _).shown plain, String.toList_singleton]
    rfl

theorem shown_cells (legible : Legible row) (back : List Char) :
    shown .text (row.flatMap (fun cell => (cellText paint cell).toList) ++ back) =
      row.map glyph ++ shown .text back := by
  induction row with
  | nil => rfl
  | cons cell rest ih =>
    have first : ∀ m, cell = some m → m.char ∈ Stroke.glyphs :=
      fun m same => legible m (same ▸ List.mem_cons_self ..)
    have later : Legible rest := fun m member => legible m (List.mem_cons_of_mem _ member)
    rw [List.flatMap_cons, List.append_assoc, shown_cellText wraps first, ih later, List.map_cons,
      List.cons_append]

theorem shown_rows (legible : ∀ row ∈ table, Legible row) :
    shown .text (table.flatMap fun row => (rowText paint row).toList) =
      table.flatMap fun row => row.map glyph ++ ['\n'] := by
  induction table with
  | nil => rfl
  | cons row rest ih =>
    obtain ⟨first, later⟩ := List.forall_mem_cons.mp legible
    rw [List.flatMap_cons, List.flatMap_cons, ← ih later, rowText, String.toList_append,
      String.toList_join, List.flatMap_map, List.append_assoc, shown_cells wraps first,
      List.append_assoc]
    rfl

end Text

namespace Grid

variable (grid : c.Grid)

include grid

theorem chunks_cells : chunks c.columns c.cells.toList =
    (List.range c.rows).map fun row => (c.cells.toList.drop (row * c.columns)).take c.columns :=
  chunks_eq grid.columns (by rw [Array.length_toList, grid.size])

theorem glyph_of_inside {col row : Nat} (left : col < c.columns) (above : row < c.rows) :
    (c.cells[row * c.columns + col]?).map glyph = some ((c.get? col row).getD ' ') := by
  rw [grid.getElem?_cells left above, get?_eq, if_pos ⟨left, above⟩]
  rfl

theorem row_eq {row : Nat} (above : row < c.rows) :
    ((c.cells.toList.drop (row * c.columns)).take c.columns).map glyph =
      (List.range c.columns).map fun col => (c.get? col row).getD ' ' := by
  refine List.ext_getElem? fun col => ?_
  rw [List.getElem?_map, List.getElem?_map, List.getElem?_take]
  split
  · next left =>
    rw [List.getElem?_drop, Array.getElem?_toList, grid.glyph_of_inside left above,
      List.getElem?_range left]
    rfl
  · next right =>
    rw [List.getElem?_eq_none (by rwa [List.length_range, ← Nat.not_lt])]
    rfl

theorem shown_render (wraps : paint.Wraps) (inked : c.Inked) :
    shown .text (c.render paint).toList = c.lines.flatMap (· ++ ['\n']) := by
  have legible : ∀ row ∈ chunks c.columns c.cells.toList, Legible row := by
    intro row member m inside
    rw [grid.chunks_cells] at member
    obtain ⟨i, -, rfl⟩ := List.mem_map.mp member
    exact inked m (Array.mem_toList_iff.mp (List.mem_of_mem_drop (List.mem_of_mem_take inside)))
  rw [render, String.toList_join, List.flatMap_map, shown_rows wraps legible, grid.chunks_cells,
    List.flatMap_map, lines, List.flatMap_map]
  refine List.flatMap_congr fun row member => ?_
  rw [grid.row_eq (List.mem_range.mp member)]

end Grid

theorem Inked.char_get? (inked : c.Inked) {col row : Nat} {g : Char}
    (seen : c.get? col row = some g) : g ∈ Stroke.glyphs := by
  rw [get?] at seen
  split at seen
  · split at seen
    · next m held =>
      cases seen
      exact inked m (Array.mem_of_getElem? held)
    · cases seen
  · cases seen

theorem Inked.mem_lines (inked : c.Inked) {line : List Char} (member : line ∈ c.lines) :
    line.length = c.columns ∧ '\n' ∉ line := by
  obtain ⟨row, -, rfl⟩ := List.mem_map.mp member
  refine ⟨by rw [List.length_map, List.length_range], fun broken => ?_⟩
  obtain ⟨col, -, same⟩ := List.mem_map.mp broken
  cases seen : c.get? col row with
  | none =>
    rw [seen] at same
    cases same
  | some g =>
    rw [seen] at same
    exact ne_of_mem_glyphs (inked.char_get? seen) (by decide) same

theorem canvas_shows_marks {paint : Paint} (wraps : paint.Wraps) (columns rows : Nat)
    (fits : max columns 1 * max rows 1 < 2 ^ 64) (strokes : List Stroke) :
    let start := blank columns rows
    let dots := strokes.flatMap Stroke.dots
    let c := strokes.foldl draw start
    c.columns = max columns 1 ∧ c.rows = max rows 1 ∧
    (c = dots.foldl dot start ∧ ∀ front, front <+: dots →
      let moment := front.foldl dot start
      moment.cells.size = max columns 1 * max rows 1 ∧
      (∀ x y col row, moment.cellOf x y = some (col, row) →
        col < moment.columns ∧ row < moment.rows ∧
          row * moment.columns + col < moment.cells.size) ∧
      ∀ col row, (moment.get? col row).isSome → (c.get? col row).isSome) ∧
    (∀ col row, col < c.columns → row < c.rows →
      c.cells[row * c.columns + col]? = some (start.lastMark? dots col row)) ∧
    ∃ lines : List (List Char), shown .text (c.render paint).toList = lines.flatMap (· ++ ['\n']) ∧
      lines.length = c.rows ∧ (∀ line ∈ lines, line.length = c.columns ∧ '\n' ∉ line) ∧
      ∀ col row, col < c.columns → row < c.rows →
        lines[row]?.bind (·[col]?) = some ((c.get? col row).getD ' ') := by
  intro start dots c
  have drawn : c = dots.foldl dot start := foldl_draw start strokes
  have first : start.Grid := grid_blank fits
  have grid : c.Grid := drawn ▸ first.foldl dots
  have wide : c.columns = start.columns := drawn ▸ columns_foldl start dots
  have high : c.rows = start.rows := drawn ▸ rows_foldl start dots
  have inked : c.Inked := drawn ▸ inked_blank.foldl fun d member => by
    obtain ⟨stroke, -, inside⟩ := List.mem_flatMap.mp member
    exact Stroke.char_dots inside
  refine ⟨wide, high, ⟨drawn, ?_⟩, ?_, ?_⟩
  · rintro front ⟨back, same⟩ moment
    have now : moment.Grid := first.foldl front
    have next : c = back.foldl dot moment := by rw [drawn, ← same, List.foldl_append]
    refine ⟨?_, fun x y col row reached => ?_, fun col row marked => ?_⟩
    · rw [now.size, columns_foldl, rows_foldl]
      rfl
    · obtain ⟨left, above⟩ := now.cellOf_lt reached
      exact ⟨left, above, now.index_lt_size left above⟩
    · rw [next]
      exact now.isSome_get?_foldl marked back
  · intro col row left above
    rw [grid.getElem?_cells left above, drawn, first.cell?_foldl (wide ▸ left), cell?_blank,
      Option.or_none]
  · refine ⟨c.lines, grid.shown_render wraps inked, ?_, fun line => inked.mem_lines, ?_⟩
    · rw [lines, List.length_map, List.length_range]
    · intro col row left above
      simp only [lines, List.getElem?_map, List.getElem?_range above, List.getElem?_range left,
        Option.map_some, Option.bind_some]

-- A line from nowhere, the axes of a view of nothing, and two lines in the single row, of which the
-- second stays in its first two cells.
def stray : List Stroke :=
  [.line ⟨0 / 0, 0⟩ ⟨3, 1 / 0⟩ axisColor, .axes ⟨0 / 0, 0 / 0, -1 / 0, 1 / 0⟩,
    .line ⟨-9, -3⟩ ⟨-2, 7⟩ axisColor, .line ⟨130, 0⟩ ⟨140, 7⟩ axisColor]

theorem single_row_shows_marks :
    let c := stray.foldl draw (blank 3 0)
    c.cells.size = 3 ∧ c.cells[1]? = some (some ⟨'•', axisColor⟩) ∧
      shown .text (c.render .ansi).toList = ['•', '•', ' ', '\n'] := by
  obtain ⟨wide, high, ⟨drawn, moments⟩, -, lines, text, count, each, cells⟩ :=
    canvas_shows_marks Paint.ansi_wraps 3 0 (by decide) stray
  intro c
  obtain ⟨size, -⟩ := moments _ (List.prefix_refl _)
  rw [← drawn] at size
  obtain ⟨shape, rfl⟩ := List.length_eq_one_iff.mp (count.trans high)
  have length : shape.length = 3 := (each shape (List.mem_singleton_self shape)).1.trans wide
  have seen (col : Nat) (left : col < 3) : shape[col]? = some ((c.get? col 0).getD ' ') :=
    cells col 0 (wide ▸ left) (by decide +kernel)
  have marks : c.get? 0 0 = some '•' ∧ c.get? 1 0 = some '•' ∧ c.get? 2 0 = none := by
    decide +kernel
  have same : shape = ['•', '•', ' '] := by
    refine List.ext_getElem? fun col => ?_
    match col with
    | 0 => rw [seen 0 (by decide), marks.1]; rfl
    | 1 => rw [seen 1 (by decide), marks.2.1]; rfl
    | 2 => rw [seen 2 (by decide), marks.2.2]; rfl
    | col + 3 => rw [List.getElem?_eq_none (by omega)]; rfl
  refine ⟨size, by decide +kernel, ?_⟩
  rw [text, same]
  rfl

end PolishPlotter.Screen.Canvas
