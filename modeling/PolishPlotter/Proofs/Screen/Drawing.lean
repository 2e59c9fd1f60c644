import PolishPlotter.Proofs.Binary64.Whole
import PolishPlotter.Screen.Canvas

set_option autoImplicit false

namespace PolishPlotter.Screen

structure Dot where
  x : Float
  y : Float
  mark : Mark

inductive Stroke
  | axes (view : Viewport Float)
  | line (source target : Point Float) (color : Color)
  | curve (shape : Curve) (color : Color)

namespace Canvas

def dot (c : Canvas) (d : Dot) : Canvas := c.mark d.x d.y (some d.mark)

def draw (c : Canvas) : Stroke → Canvas
  | .axes view => c.axes view
  | .line source target color => c.line source target color
  | .curve shape color => c.curve shape color

def cell? (c : Canvas) (col row : Nat) : Option Mark := c.cells[row * c.columns + col]?.join

def lastMark? (c : Canvas) (dots : List Dot) (col row : Nat) : Option Mark :=
  (dots.filter fun d => c.cellOf d.x d.y = some (col, row)).getLast?.map (·.mark)

end Canvas

namespace Stroke

open Canvas (axisColor steps?)

def horizontal (y : Float) : List Dot :=
  (List.range screenWidth).map fun x => ⟨.ofNat x, y, ⟨'─', axisColor⟩⟩

def vertical (x : Float) : List Dot :=
  (List.range screenHeight).map fun y => ⟨x, .ofNat y, ⟨'│', axisColor⟩⟩

def axisDots : Option Float × Option Float → List Dot
  | (some x, some y) => horizontal y ++ vertical x ++ [⟨x, y, ⟨'┼', axisColor⟩⟩]
  | (some x, none) => vertical x
  | (none, some y) => horizontal y
  | (none, none) => []

def lineDot (source target : Point Float) (color : Color) (steps i : Nat) : Dot :=
  let t := i.toUInt64.toFloat / steps.toUInt64.toFloat
  ⟨source.x + (target.x - source.x) * t, source.y + (target.y - source.y) * t, ⟨'•', color⟩⟩

def lineDots (source target : Point Float) (color : Color) : List Dot :=
  match steps? source target with
  | some steps => (List.range (steps + 1)).map (lineDot source target color steps)
  | none => []

def dots : Stroke → List Dot
  | .axes view => axisDots (view.axes .origin)
  | .line source target color => lineDots source target color
  | .curve shape color =>
    shape.segments.flatMap fun (source, target) => lineDots source target color

def glyphs : List Char := ['─', '│', '┼', '•']

variable {stroke : Stroke} {d : Dot}

theorem char_lineDots {source target : Point Float} {color : Color}
    (member : d ∈ lineDots source target color) : d.mark.char = '•' := by
  rw [lineDots] at member
  split at member
  · obtain ⟨i, -, rfl⟩ := List.mem_map.mp member
    rfl
  · cases member

theorem char_axisDots {cross : Option Float × Option Float} (member : d ∈ axisDots cross) :
    d.mark.char ∈ glyphs := by
  obtain ⟨_ | x, _ | y⟩ := cross <;>
    simp only [axisDots, horizontal, vertical, List.mem_append, List.mem_map,
      List.mem_singleton, List.not_mem_nil] at member
  · obtain ⟨x, -, rfl⟩ := member
    simp [glyphs]
  · obtain ⟨y, -, rfl⟩ := member
    simp [glyphs]
  · obtain (⟨x, -, rfl⟩ | ⟨y, -, rfl⟩) | rfl := member <;> simp [glyphs]

theorem char_dots (member : d ∈ stroke.dots) : d.mark.char ∈ glyphs := by
  cases stroke with
  | axes view => exact char_axisDots member
  | line source target color =>
    rw [char_lineDots member]
    decide
  | curve shape color =>
    obtain ⟨⟨source, target⟩, -, inside⟩ := List.mem_flatMap.mp member
    rw [char_lineDots inside]
    decide

end Stroke

namespace Canvas

variable {c : Canvas} {stroke : Stroke} {strokes : List Stroke} {dots : List Dot} {d : Dot}
  {x y : Float} {columns rows col row : Nat}

section Dots

theorem plot_eq (source target : Point Float) (color : Color) (steps i n : Nat) :
    c.plot source.x source.y (target.x - source.x) (target.y - source.y) steps.toUInt64.toFloat
        (some ⟨'•', color⟩) i n =
      ((List.range' i n).map (Stroke.lineDot source target color steps)).foldl dot c := by
  induction n generalizing c i with
  | zero => rfl
  | succ n ih =>
    rw [plot, ih]
    rfl

theorem line_eq (source target : Point Float) (color : Color) :
    c.line source target color = (Stroke.lineDots source target color).foldl dot c := by
  rw [line, Stroke.lineDots]
  cases steps? source target with
  | none => rfl
  | some steps =>
    simp only [List.range_eq_range']
    exact plot_eq source target color steps 0 (steps + 1)

theorem axes_eq (view : Viewport Float) :
    c.axes view = (Stroke.axisDots (view.axes .origin)).foldl dot c := by
  rw [axes]
  obtain ⟨_ | x, _ | y⟩ := view.axes .origin <;>
    simp only [Stroke.axisDots, Stroke.horizontal, Stroke.vertical, List.foldl_append,
      List.foldl_map, List.foldl_cons, List.foldl_nil, dot]

theorem draw_eq (c : Canvas) (stroke : Stroke) : c.draw stroke = stroke.dots.foldl dot c := by
  cases stroke with
  | axes view => exact axes_eq view
  | line source target color => exact line_eq source target color
  | curve shape color =>
    rw [Stroke.dots, List.foldl_flatMap, draw, Canvas.curve]
    congr 1
    funext c ⟨source, target⟩
    exact line_eq source target color

theorem foldl_draw (c : Canvas) (strokes : List Stroke) :
    strokes.foldl draw c = (strokes.flatMap Stroke.dots).foldl dot c := by
  rw [List.foldl_flatMap]
  congr 1
  funext c stroke
  exact draw_eq c stroke

end Dots

section Grid

structure Grid (c : Canvas) : Prop where
  columns : 0 < c.columns
  rows : 0 < c.rows
  fits : c.columns * c.rows < 2 ^ 64
  size : c.cells.size = c.columns * c.rows

theorem columns_mark (c : Canvas) (x y : Float) (cell : Option Mark) :
    (c.mark x y cell).columns = c.columns := by
  rw [mark]
  split <;> rfl

theorem rows_mark (c : Canvas) (x y : Float) (cell : Option Mark) :
    (c.mark x y cell).rows = c.rows := by
  rw [mark]
  split <;> rfl

theorem cellIndex?_lt {v size : Float} {count i : Nat} (fits : count < 2 ^ 64)
    (reached : cellIndex? v size count = some i) : i < count := by
  simp only [cellIndex?] at reached
  split at reached
  · next inside =>
    cases reached
    have below := Binary64.toNat_toUInt64_lt _ inside.1 inside.2
    rwa [Nat.toUInt64, UInt64.toNat_ofNat_of_lt' fits] at below
  · cases reached

theorem index_lt (left : col < columns) (above : row < rows) :
    row * columns + col < columns * rows := by
  have next : (row + 1) * columns ≤ rows * columns := Nat.mul_le_mul_right columns above
  rw [Nat.add_mul, Nat.one_mul, Nat.mul_comm rows] at next
  omega

theorem index_inj {col' row' : Nat} (left : col < columns) (left' : col' < columns)
    (same : row * columns + col = row' * columns + col') : col = col' ∧ row = row' := by
  have equal : col = col' := by
    have rest := congrArg (· % columns) same
    simpa only [Nat.mul_add_mod', Nat.mod_eq_of_lt, left, left'] using rest
  subst equal
  exact ⟨rfl, Nat.eq_of_mul_eq_mul_right (Nat.zero_lt_of_lt left) (Nat.add_right_cancel same)⟩

namespace Grid

theorem dot (grid : c.Grid) (d : Dot) : (c.dot d).Grid := by
  obtain ⟨columns, rows, fits, size⟩ := grid
  constructor <;>
    simp only [Canvas.dot, columns_mark, rows_mark, size_cells_mark] <;> assumption

theorem cellOf_lt (grid : c.Grid) (reached : c.cellOf x y = some (col, row)) :
    col < c.columns ∧ row < c.rows := by
  have wide : c.columns < 2 ^ 64 := (Nat.le_mul_of_pos_right _ grid.rows).trans_lt grid.fits
  have high : c.rows < 2 ^ 64 := (Nat.le_mul_of_pos_left _ grid.columns).trans_lt grid.fits
  simp only [cellOf] at reached
  split at reached
  · cases reached
  · next i first =>
    split at reached
    · cases reached
    · next j second =>
      cases reached
      exact ⟨cellIndex?_lt wide first, cellIndex?_lt high second⟩

theorem index_lt_size (grid : c.Grid) (left : col < c.columns) (above : row < c.rows) :
    row * c.columns + col < c.cells.size := by
  rw [grid.size]
  exact index_lt left above

theorem getElem?_cells (grid : c.Grid) (left : col < c.columns) (above : row < c.rows) :
    c.cells[row * c.columns + col]? = some (c.cell? col row) := by
  rw [cell?, Array.getElem?_eq_getElem (grid.index_lt_size left above)]
  rfl

theorem cell?_dot (grid : c.Grid) (left : col < c.columns) :
    (c.dot d).cell? col row =
      if c.cellOf d.x d.y = some (col, row) then some d.mark else c.cell? col row := by
  simp only [cell?, Canvas.dot, mark]
  cases reached : c.cellOf d.x d.y with
  | none => rfl
  | some place =>
    obtain ⟨i, j⟩ := place
    obtain ⟨right, low⟩ := grid.cellOf_lt reached
    simp only [Array.getElem?_setIfInBounds, grid.index_lt_size right low, if_true, Option.some.injEq, Prod.mk.injEq]
    by_cases same : i = col ∧ j = row
    · rw [if_pos same, same.1, same.2, if_pos rfl]
      rfl
    · rw [if_neg same, if_neg fun equal => same (index_inj right left equal)]

end Grid

theorem grid_blank (fits : max columns 1 * max rows 1 < 2 ^ 64) : (blank columns rows).Grid :=
  ⟨by simp [blank], by simp [blank], fits, by simp [blank]⟩

theorem cell?_blank (columns rows col row : Nat) : (blank columns rows).cell? col row = none := by
  simp only [cell?, blank, Array.getElem?_replicate]
  split <;> rfl

theorem get?_eq (c : Canvas) (col row : Nat) :
    c.get? col row = if col < c.columns ∧ row < c.rows then (c.cell? col row).map Mark.char
      else none := by
  rw [get?, cell?]
  obtain _ | _ | m := c.cells[row * c.columns + col]? <;> rfl

end Grid

section Run

theorem columns_foldl (c : Canvas) (dots : List Dot) : (dots.foldl dot c).columns = c.columns := by
  induction dots generalizing c with
  | nil => rfl
  | cons d rest ih => rw [List.foldl_cons, ih, dot, columns_mark]

theorem rows_foldl (c : Canvas) (dots : List Dot) : (dots.foldl dot c).rows = c.rows := by
  induction dots generalizing c with
  | nil => rfl
  | cons d rest ih => rw [List.foldl_cons, ih, dot, rows_mark]

theorem cellOf_foldl (c : Canvas) (dots : List Dot) (x y : Float) :
    (dots.foldl dot c).cellOf x y = c.cellOf x y := by
  simp only [cellOf, columns_foldl, rows_foldl]

theorem Grid.foldl (grid : c.Grid) (dots : List Dot) : (dots.foldl Canvas.dot c).Grid := by
  induction dots generalizing c with
  | nil => exact grid
  | cons d rest ih => exact ih (grid.dot d)

theorem lastMark?_concat (c : Canvas) (dots : List Dot) (d : Dot) (col row : Nat) :
    c.lastMark? (dots ++ [d]) col row =
      if c.cellOf d.x d.y = some (col, row) then some d.mark else c.lastMark? dots col row := by
  simp only [lastMark?, List.filter_append, List.filter_cons, List.filter_nil]
  split <;> simp_all

-- The induction adds the dots at the end, where the last one decides.
theorem Grid.cell?_foldl (grid : c.Grid) (left : col < c.columns) (dots : List Dot) :
    (dots.foldl Canvas.dot c).cell? col row =
      (c.lastMark? dots col row).or (c.cell? col row) := by
  induction dots using List.reverseRecOn with
  | nil => rfl
  | append_singleton dots d ih =>
    rw [List.foldl_concat, (grid.foldl dots).cell?_dot (by rwa [columns_foldl]), cellOf_foldl,
      lastMark?_concat, ih]
    split <;> rfl

theorem Grid.isSome_get?_foldl (grid : c.Grid) (marked : (c.get? col row).isSome = true)
    (dots : List Dot) : ((dots.foldl Canvas.dot c).get? col row).isSome = true := by
  rw [get?_eq] at marked
  rw [get?_eq, columns_foldl, rows_foldl]
  split at marked
  · next inside =>
    rw [if_pos inside, grid.cell?_foldl inside.1, Option.isSome_map, Option.isSome_or]
    rw [Option.isSome_map] at marked
    rw [marked, Bool.or_true]
  · cases marked

end Run

section Glyphs

def Inked (c : Canvas) : Prop := ∀ m, some m ∈ c.cells → m.char ∈ Stroke.glyphs

theorem Inked.dot (inked : c.Inked) (drawn : d.mark.char ∈ Stroke.glyphs) : (c.dot d).Inked := by
  intro m member
  simp only [Canvas.dot, mark] at member
  split at member
  · rcases Array.mem_or_eq_of_mem_setIfInBounds member with earlier | new
    · exact inked m earlier
    · cases new
      exact drawn
  · exact inked m member

theorem Inked.foldl (inked : c.Inked) (drawn : ∀ d ∈ dots, d.mark.char ∈ Stroke.glyphs) :
    (dots.foldl Canvas.dot c).Inked := by
  induction dots generalizing c with
  | nil => exact inked
  | cons d rest ih =>
    obtain ⟨first, later⟩ := List.forall_mem_cons.mp drawn
    exact ih (inked.dot first) later

theorem inked_blank : (blank columns rows).Inked := by
  intro m member
  have none := Array.eq_of_mem_replicate member
  cases none

end Glyphs

end Canvas

end PolishPlotter.Screen
