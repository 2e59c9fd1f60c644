import PolishPlotter.Proofs.Screen.Along

set_option autoImplicit false

namespace PolishPlotter.Screen.Canvas

open Binary64

variable {c : Canvas} {source target : Point Float} {color : Color} {a b : Float}
  {rows steps row col : Nat}

section Crossing

variable {e : Nat → ℚ} {n : Nat} {low high step : ℚ}

theorem exists_step_above (near : ∀ i < n, |e (i + 1) - e i| ≤ step) (room : low + step ≤ high)
    (forward : 0 ≤ step) (below : e 0 < low) (above : high < e n) :
    ∃ i < n, low ≤ e i ∧ e i ≤ high := by
  induction n with
  | zero => linarith
  | succ n ih =>
    rcases lt_or_ge high (e n) with beyond | within
    · obtain ⟨i, inside, between⟩ := ih (fun i less => near i (by omega)) beyond
      exact ⟨i, by omega, between⟩
    · have last := (le_abs_self _).trans (near n (Nat.lt_succ_self n))
      exact ⟨n, Nat.lt_succ_self n, by linarith, within⟩

/-- What moves by less than the width of a band cannot jump over it. -/
theorem exists_step_between (near : ∀ i < n, |e (i + 1) - e i| ≤ step) (room : low + step ≤ high)
    (forward : 0 ≤ step) (ends : e 0 < low ∧ high < e n ∨ e n < low ∧ high < e 0) :
    ∃ i < n, low ≤ e i ∧ e i ≤ high := by
  rcases ends with ⟨below, above⟩ | ⟨below, above⟩
  · exact exists_step_above near room forward below above
  · have mirrored := @exists_step_above (fun i => -e i) n (-high) (-low) step
      (fun i less => by
        rw [neg_sub_neg, abs_sub_comm]
        exact near i less)
      (by linarith) forward (neg_lt_neg above) (neg_lt_neg below)
    obtain ⟨i, inside, first, last⟩ := mirrored
    exact ⟨i, inside, neg_le_neg_iff.mp last, neg_le_neg_iff.mp first⟩

end Crossing

/-- The row of a coordinate, as if there were rows above and below the screen. -/
def level (y : Float) (rows : Nat) : Float := floor (place y screenHeight rows)

def Between (rows : Nat) (a b : Float) (row : Nat) : Prop :=
  level a rows < row.toUInt64.toFloat ∧ row.toUInt64.toFloat < level b rows ∨
    level b rows < row.toUInt64.toFloat ∧ row.toUInt64.toFloat < level a rows

/-- Steps along a span are less than a row apart, by more than what rounding adds. -/
def Tight (rows steps : Nat) (span : Int) : Prop :=
  2 ^ 20 * (rows * |span|) ≤ (2 ^ 20 - 1) * (screenHeight * steps * unitsPerOne)

def Fine (rows : Nat) (source target : Point Float) : Prop :=
  ∃ steps ∈ steps? source target, Tight rows steps (value target.y - value source.y)

instance : Decidable (Between rows a b row) := inferInstanceAs (Decidable (_ ∨ _))

instance (rows steps : Nat) (span : Int) : Decidable (Tight rows steps span) :=
  inferInstanceAs (Decidable (_ ≤ _))

instance : Decidable (Fine rows source target) :=
  inferInstanceAs (Decidable (∃ steps ∈ steps? source target, _))

theorem steps?_bounds (counted : steps? source target = some steps) :
    0 < steps ∧ steps ≤ screenWidth * screenHeight := by
  simp only [steps?] at counted
  split at counted
  · cases counted
    have most : 1 ≤ screenWidth * screenHeight := by decide
    omega
  · cases counted

theorem course_step (given : 0 < steps) (tight : Tight rows steps (value b - value a)) (i : Nat) :
    |course a b rows steps (i + 1) - course a b rows steps i| ≤ 1 - 1 / 2 ^ 20 := by
  have count : (0 : ℚ) < steps := Nat.cast_pos.mpr given
  have tall : (0 : ℚ) < screenHeight := Nat.cast_pos.mpr (by decide)
  have moved : course a b rows steps (i + 1) - course a b rows steps i =
      toRat (value b - value a) * rows / (steps * screenHeight) := by
    rw [course, course, Nat.cast_succ]
    field_simp
    ring
  have scaled : |toRat (value b - value a)| * (2 ^ 20 * rows) ≤
      (2 ^ 20 - 1) * (screenHeight * steps) := by
    have whole : |value b - value a| * (2 ^ 20 * rows) ≤
        (2 ^ 20 - 1) * (screenHeight * steps) * unitsPerOne := by
      rw [Int.mul_assoc]
      exact (Int.mul_comm _ _).trans_le ((Int.mul_assoc _ _ _).trans_le tight)
    have ratios := toRat_le_toRat.mpr whole
    rw [toRat_mul, toRat_units, ← abs_toRat] at ratios
    exact_mod_cast ratios
  rw [moved, abs_div, abs_mul, Nat.abs_cast, abs_of_pos (mul_pos count tall),
    div_le_iff₀ (mul_pos count tall)]
  linarith

section Ends

variable (finite : a.isFinite = true) (high : rows ≤ screenHeight)

include finite high

theorem value_lt_of_level_lt (inside : row ≤ rows)
    (below : level a rows < row.toUInt64.toFloat) :
    value (place a screenHeight rows) < row * unitsPerOne ∧
      value a < screenHeight * unitsPerOne := by
  have tall : 0 < screenHeight := by decide
  have small : screenHeight ≤ 2 ^ 53 := by decide
  have count : rows ≤ 240 := high
  have less := value_lt_of_floor_lt (isNaN_place finite tall small) (by omega) below
  refine ⟨less, ?_⟩
  -- From the bottom of the screen on, a coordinate is in no row of the grid.
  by_contra other
  have whole : quotient (screenHeight * unitsPerOne) screenHeight = unitsPerOne := by
    decide +kernel
  have divided := quotient_mono tall (Int.not_lt.mp other)
  rw [whole] at divided
  have most := rounded_mono (Int.mul_le_mul_of_nonneg_right divided (Int.natCast_nonneg rows))
  have last := @rounded_whole rows (by rw [Nat.abs_cast]; omega)
  rw [value_place finite tall small (by omega)] at less
  rw [Int.mul_comm, last] at most
  have scaled := Int.mul_le_mul_of_nonneg_right (Int.ofNat_le.mpr inside)
    (Int.natCast_nonneg unitsPerOne)
  exact Int.lt_irrefl _ ((scaled.trans most).trans_lt less)

theorem value_pos_of_lt_level (inside : row < rows)
    (above : row.toUInt64.toFloat < level a rows) :
    (row + 1) * unitsPerOne ≤ value (place a screenHeight rows) ∧ 0 < value a := by
  have tall : 0 < screenHeight := by decide
  have small : screenHeight ≤ 2 ^ 53 := by decide
  have count : rows ≤ 240 := high
  have more := le_value_of_lt_floor (isNaN_place finite tall small) (by omega) above
  refine ⟨more, ?_⟩
  by_contra other
  have divided := quotient_mono tall (Int.not_lt.mp other)
  rw [quotient_zero] at divided
  have most := rounded_mono (Int.mul_le_mul_of_nonneg_right divided (Int.natCast_nonneg rows))
  rw [Int.zero_mul] at most
  rw [value_place finite tall small (by omega)] at more
  have room : (0 : Int) < unitsPerOne := Int.natCast_pos.mpr unitsPerOne_pos
  have least : 0 < ((row : Int) + 1) * unitsPerOne :=
    Int.mul_pos (Int.natCast_pos.mpr (Nat.succ_pos row)) room
  exact Int.lt_irrefl _ (least.trans_le (more.trans most))

end Ends

section Row

theorem course_zero (a b : Float) (rows steps : Nat) :
    course a b rows steps 0 = toRat (value a) * rows / screenHeight := by
  rw [course, Nat.cast_zero, zero_div, mul_zero, add_zero]

theorem course_last (given : 0 < steps) :
    course a b rows steps steps = toRat (value b) * rows / screenHeight := by
  rw [course, div_self (Nat.cast_pos.mpr given).ne', mul_one, ← toRat_add,
    add_sub_cancel]

theorem sizes_of_ends {m n : Int} (span : |n - m| ≤ 23040000 * unitsPerOne)
    (low : m < screenHeight * unitsPerOne) (positive : 0 < n) :
    |toRat m| ≤ 2 ^ 25 ∧ |toRat n| ≤ 2 ^ 25 := by
  have tall : (screenHeight : Int) = 240 := rfl
  have size {k : Int} (below : |k| ≤ 2 ^ 25 * unitsPerOne) : |toRat k| ≤ 2 ^ 25 :=
    (abs_toRat_le below).trans_eq (by norm_num)
  have room := Int.natCast_pos.mpr unitsPerOne_pos
  rw [tall] at low
  rw [abs_le] at span
  constructor
  · refine size (abs_le.mpr ?_)
    generalize (unitsPerOne : Int) = u at span low room ⊢
    omega
  · refine size (abs_le.mpr ?_)
    generalize (unitsPerOne : Int) = u at span low room ⊢
    omega

theorem course_ends (left : a.isFinite = true) (right : b.isFinite = true)
    (high : rows ≤ screenHeight) (inside : row < rows)
    (span : |value b - value a| ≤ 23040000 * unitsPerOne)
    (below : level a rows < row.toUInt64.toFloat) (above : row.toUInt64.toFloat < level b rows) :
    |toRat (value a)| ≤ 2 ^ 25 ∧ |toRat (value b)| ≤ 2 ^ 25 ∧
      toRat (value a) * rows / screenHeight < row + 1 / 2 ^ 22 ∧
      row + 1 - 1 / 2 ^ 22 < toRat (value b) * rows / screenHeight := by
  obtain ⟨less, low⟩ := value_lt_of_level_lt left high inside.le below
  obtain ⟨more, positive⟩ := value_pos_of_lt_level right high inside above
  obtain ⟨first, last⟩ := sizes_of_ends span low positive
  have nearFirst := place_close left first (Nat.zero_lt_of_lt inside) high
  have nearLast := place_close right last (Nat.zero_lt_of_lt inside) high
  rw [← toRat_lt_toRat, toRat_units, Int.cast_natCast] at less
  rw [← toRat_le_toRat, toRat_units] at more
  push_cast at more
  rw [abs_le] at nearFirst nearLast
  exact ⟨first, last, by linarith, by linarith⟩

theorem span_le {n : Int} (some : 0 < rows) (few : steps ≤ screenWidth * screenHeight)
    (tight : Tight rows steps n) : |n| ≤ 23040000 * unitsPerOne := by
  have tall : (screenHeight : Int) = 240 := rfl
  have whole := Int.mul_le_mul_of_nonneg_right (Int.add_one_le_of_lt (Int.natCast_pos.mpr some))
    (abs_nonneg n)
  have count := Int.mul_le_mul_of_nonneg_right (Int.ofNat_le.mpr few)
    (Int.natCast_nonneg unitsPerOne)
  have area : ((screenWidth * screenHeight : Nat) : Int) = 96000 := rfl
  rw [area] at count
  rw [Tight, tall, Int.mul_assoc 240] at tight
  linarith

theorem exists_row_step (left : a.isFinite = true) (right : b.isFinite = true)
    (high : rows ≤ screenHeight) (inside : row < rows) (given : 0 < steps)
    (few : steps ≤ screenWidth * screenHeight)
    (tight : Tight rows steps (value b - value a)) (ends : Between rows a b row) :
    ∃ i < steps, cellIndex? (along a b steps i) screenHeight.toUInt64.toFloat rows = some row := by
  have some := Nat.zero_lt_of_lt inside
  have span := span_le some few tight
  have reach : |toRat (value b - value a)| ≤ 2 ^ 25 := (abs_toRat_le span).trans (by norm_num)
  have tall : 0 < screenHeight := by decide
  have short : steps ≤ 2 ^ 17 := few.trans (by decide)
  have count : rows ≤ 2 ^ 52 := high.trans (by decide)
  obtain ⟨first, last, crossed⟩ : |toRat (value a)| ≤ 2 ^ 25 ∧ |toRat (value b)| ≤ 2 ^ 25 ∧
      (course a b rows steps 0 < row + 1 / 2 ^ 22 ∧
          row + 1 - 1 / 2 ^ 22 < course a b rows steps steps ∨
        course a b rows steps steps < row + 1 / 2 ^ 22 ∧
          row + 1 - 1 / 2 ^ 22 < course a b rows steps 0) := by
    rw [course_zero, course_last given]
    rcases ends with ⟨below, above⟩ | ⟨below, above⟩
    · obtain ⟨first, last, crossed⟩ := course_ends left right high inside span below above
      exact ⟨first, last, .inl crossed⟩
    · rw [abs_sub_comm] at span
      obtain ⟨last, first, crossed⟩ := course_ends right left high inside span below above
      exact ⟨first, last, .inr crossed⟩
  obtain ⟨i, early, low, below⟩ := exists_step_between
    (fun i _ => course_step given tight i) (by norm_num; linarith) (by norm_num) crossed
  have close := abs_le.mp
    (place_along_close left right first reach given short early last some high)
  have finite := isFinite_along left right (abs_le_largest reach) given short early
  refine ⟨i, early, cellIndex?_of_between (isNaN_place finite tall (by decide)) count inside ?_ ?_⟩
  · rw [← toRat_le_toRat, toRat_units, Int.cast_natCast]
    linarith
  · rw [← toRat_lt_toRat, toRat_units]
    push_cast
    linarith

end Row

section Short

theorem value_larger {x y : Float} (left : x.isNaN = false) (right : y.isNaN = false) :
    (larger x y).isNaN = false ∧ value (larger x y) = max (value x) (value y) := by
  rw [larger, left, Bool.false_or]
  by_cases less : x < y
  · rw [if_pos (decide_eq_true less), max_eq_right ((lt_iff_value left right).mp less).le]
    exact ⟨right, rfl⟩
  · rw [if_neg (by rwa [decide_eq_true_iff]), max_eq_left]
    · exact ⟨left, rfl⟩
    · exact Int.not_lt.mp ((lt_iff_value left right).not.mp less)

def extent (source target : Point Float) : Float :=
  larger (target.x - source.x).abs (target.y - source.y).abs

theorem steps?_of_short (number : (extent source target).isNaN = false)
    (least : 0 ≤ value (extent source target))
    (short : value (extent source target) ≤ (screenWidth * screenHeight : Nat) * unitsPerOne) :
    ∃ steps ∈ steps? source target, value (extent source target) ≤ steps * unitsPerOne := by
  have room : (0 : Int) < unitsPerOne := Int.natCast_pos.mpr unitsPerOne_pos
  have area : ((screenWidth * screenHeight : Nat) : Int) = 96000 := rfl
  have small : |value (extent source target)| < 2 ^ 52 * unitsPerOne := by
    rw [abs_of_nonneg least]
    refine short.trans_lt (Int.mul_lt_mul_of_pos_right ?_ room)
    rw [area]
    decide
  obtain ⟨w, whole, finite, above, below⟩ := value_ceil number small
  have positive : 0 ≤ w :=
    le_of_mul_le_mul_right ((Int.zero_mul _).trans_le (least.trans below)) room
  have bounded := Int.mul_lt_mul_of_pos_right (show (96001 : Int) < 2 ^ 64 by decide) room
  have counted : ((ceil (extent source target)).toUInt64.toNat : Int) = w := by
    rw [toNat_toUInt64 finite, whole, Int.mul_ediv_cancel _ room.ne']
    · rw [whole]
      exact Int.mul_nonneg positive room.le
    · rw [whole]
      rw [area] at short
      linarith
  refine ⟨_, if_pos finite, ?_⟩
  have reached : value (extent source target) ≤
      (min (ceil (extent source target)).toUInt64.toNat (screenWidth * screenHeight) : Nat) *
        unitsPerOne := by
    rcases Nat.le_total (ceil (extent source target)).toUInt64.toNat (screenWidth * screenHeight)
      with fewer | more
    · rw [min_eq_left fewer, counted]
      exact below
    · rw [min_eq_right more]
      exact short
  exact reached.trans (Int.mul_le_mul_of_nonneg_right (Int.ofNat_le.mpr (Nat.le_max_left _ _))
    room.le)

theorem sub_short (left : a.isFinite = true) (right : b.isFinite = true) {k : Nat}
    (few : k ≤ 2 ^ 53) (span : |value b - value a| ≤ k * unitsPerOne) :
    (b - a).abs.isNaN = false ∧ value (b - a).abs = |rounded (value b - value a)| ∧
      |rounded (value b - value a)| ≤ k * unitsPerOne := by
  have number := isNaN_sub right left
  have whole := @rounded_whole k (by rw [Nat.abs_cast]; omega)
  obtain ⟨low, high⟩ := abs_le.mp span
  have above := rounded_mono high
  have below := rounded_mono low
  rw [rounded_neg, whole] at below
  rw [whole] at above
  refine ⟨(isNaN_abs _).trans number, ?_, abs_le.mpr ⟨below, above⟩⟩
  rw [value_abs number, value_sub right left]

theorem fine_of_short (left : source.x.isFinite = true) (right : target.x.isFinite = true)
    (low : source.y.isFinite = true) (high : target.y.isFinite = true)
    (wide : |value target.x - value source.x| ≤ screenWidth * unitsPerOne)
    (tall : |value target.y - value source.y| ≤ (screenWidth * screenHeight : Nat) * unitsPerOne)
    (few : rows < screenHeight) : Fine rows source target := by
  obtain ⟨first, across, narrow⟩ := sub_short left right (by decide) wide
  obtain ⟨last, down, short⟩ := sub_short low high (by decide) tall
  obtain ⟨number, longer⟩ := value_larger first last
  rw [across, down] at longer
  have room := Int.natCast_nonneg unitsPerOne
  have least : 0 ≤ value (extent source target) := by
    rw [extent, longer]
    exact (abs_nonneg _).trans (le_max_left _ _)
  have most : value (extent source target) ≤ (screenWidth * screenHeight : Nat) * unitsPerOne := by
    rw [extent, longer]
    exact max_le (narrow.trans (Int.mul_le_mul_of_nonneg_right (by decide) room)) short
  obtain ⟨steps, counted, reached⟩ := steps?_of_short number least most
  have vertical : |rounded (value target.y - value source.y)| ≤ steps * unitsPerOne := by
    rw [extent, longer] at reached
    exact (le_max_right _ _).trans reached
  have area : ((screenWidth * screenHeight : Nat) : Int) ≤ 2 ^ 25 := by decide
  have bounded : |toRat (value target.y - value source.y)| ≤ 2 ^ 25 :=
    (abs_toRat_le tall).trans (by exact_mod_cast area)
  have error := rounded_error (abs_le_largest bounded)
  refine ⟨steps, counted, ?_⟩
  generalize value target.y - value source.y = n at error vertical ⊢
  have size := abs_sub_abs_le_abs_sub n (rounded n)
  have count := Int.mul_le_mul_of_nonneg_right (Int.ofNat_le.mpr (Nat.le_sub_one_of_lt few))
    (abs_nonneg n)
  have height : ((screenHeight - 1 : Nat) : Int) = 239 := rfl
  have full : (screenHeight : Int) = 240 := rfl
  rw [abs_sub_comm] at size
  rw [height] at count
  rw [Tight, full, Int.mul_assoc 240]
  linarith [Int.mul_nonneg (Int.natCast_nonneg steps) room]

end Short

section Line

theorem lastMark?_of_mem {dots : List Dot} {d : Dot} {m : Mark} (same : ∀ d ∈ dots, d.mark = m)
    (member : d ∈ dots) (reached : c.cellOf d.x d.y = some (col, row)) :
    c.lastMark? dots col row = some m := by
  have kept : d ∈ dots.filter fun d => c.cellOf d.x d.y = some (col, row) :=
    List.mem_filter.mpr ⟨member, decide_eq_true reached⟩
  have found := List.getLast?_eq_some_getLast (List.ne_nil_of_mem kept)
  have drawn := (List.mem_filter.mp (List.mem_of_getLast? found)).1
  rw [lastMark?, found, Option.map_some, same _ drawn]

theorem row_of_cellOf {x y : Float} (reached : c.cellOf x y = some (col, row)) :
    cellIndex? y screenHeight.toUInt64.toFloat c.rows = some row := by
  simp only [cellOf] at reached
  split at reached
  · cases reached
  · split at reached
    · cases reached
    · next found =>
      cases reached
      exact found

theorem exists_dot_of_lastMark? {dots : List Dot} {m : Mark}
    (marked : c.lastMark? dots col row = some m) :
    ∃ d ∈ dots, c.cellOf d.x d.y = some (col, row) := by
  obtain ⟨d, found, -⟩ := Option.map_eq_some_iff.mp marked
  obtain ⟨member, reached⟩ := List.mem_filter.mp (List.mem_of_getLast? found)
  exact ⟨d, member, of_decide_eq_true reached⟩

theorem lineDots_eq (counted : steps ∈ steps? source target) :
    Stroke.lineDots source target color =
      (List.range (steps + 1)).map (Stroke.lineDot source target color steps) := by
  rw [Stroke.lineDots, Option.mem_def.mp counted]

theorem Grid.cell?_line_of_reached (grid : c.Grid) (counted : steps ∈ steps? source target)
    {i : Nat} (early : i < steps)
    (reached : c.cellOf (along source.x target.x steps i) (along source.y target.y steps i) =
      some (col, row)) :
    (c.line source target color).cell? col row = some ⟨'•', color⟩ := by
  have dots := @lineDots_eq source target color steps counted
  have member : Stroke.lineDot source target color steps i ∈
      Stroke.lineDots source target color := by
    rw [dots]
    exact List.mem_map_of_mem (List.mem_range.mpr (by omega))
  have same : ∀ d ∈ Stroke.lineDots source target color, d.mark = ⟨'•', color⟩ := by
    intro d inside
    rw [dots] at inside
    obtain ⟨j, -, rfl⟩ := List.mem_map.mp inside
    rfl
  rw [line_eq, grid.cell?_foldl (grid.cellOf_lt reached).1, lastMark?_of_mem same member reached,
    Option.some_or]

theorem line_marks_rows_between (c : Canvas) (source target : Point Float) (color : Color)
    (grid : c.Grid) (wide : c.columns ≤ screenWidth) (high : c.rows ≤ screenHeight)
    (low : source.y.isFinite = true) (top : target.y.isFinite = true)
    (first : 0 ≤ source.x ∧ source.x < screenWidth.toUInt64.toFloat)
    (last : 0 ≤ target.x ∧ target.x < screenWidth.toUInt64.toFloat) :
    (Fine c.rows source target → ∀ row < c.rows, Between c.rows source.y target.y row →
      ∃ col < c.columns, (c.line source target color).cell? col row = some ⟨'•', color⟩) ∧
    (c.rows < screenHeight →
      |value target.y - value source.y| ≤ (screenWidth * screenHeight : Nat) * unitsPerOne →
      Fine c.rows source target) := by
  have count : value screenWidth.toUInt64.toFloat = screenWidth * unitsPerOne :=
    value_count (by decide)
  have left := isFinite_of_between rfl (isFinite_count screenWidth) first.1 first.2
  have right := isFinite_of_between rfl (isFinite_count screenWidth) last.1 last.2
  have beforeFirst := value_nonneg first.1
  have beforeLast := value_nonneg last.1
  have afterFirst := value_lt_of_lt first.2
  have afterLast := value_lt_of_lt last.2
  rw [count] at afterFirst afterLast
  have across : |value target.x - value source.x| ≤ screenWidth * unitsPerOne := by
    rw [abs_le]
    omega
  refine ⟨?_, fun few short => fine_of_short left right low top across short few⟩
  rintro ⟨steps, counted, fine⟩ row inside between
  obtain ⟨given, few⟩ := steps?_bounds counted
  obtain ⟨i, early, vertical⟩ := exists_row_step low top high inside given few fine between
  have width : (screenWidth : Int) ≤ 2 ^ 25 := by decide
  have span := abs_le_largest ((abs_toRat_le across).trans (by exact_mod_cast width))
  have short : steps ≤ 2 ^ 17 := few.trans (by decide)
  obtain ⟨above, below⟩ := along_between left right span given short early
  obtain ⟨col, horizontal⟩ := exists_column (isFinite_along left right span given short early)
    grid.columns wide (by omega) (by omega)
  have reached : c.cellOf (along source.x target.x steps i) (along source.y target.y steps i) =
      some (col, row) := by
    rw [cellOf, horizontal, vertical]
  exact ⟨col, (grid.cellOf_lt reached).1, grid.cell?_line_of_reached counted early reached⟩

-- Both ends are hundreds of screens away, and the segment is as long as its steps allow.
theorem steep_line_marks_row :
    let c := blank 7 239
    let source : Point Float := ⟨399.5, -47999.75⟩
    let target : Point Float := ⟨0, 48000⟩
    Fine c.rows source target ∧ Between c.rows source.y target.y 119 ∧
      ∃ col < c.columns, (c.line source target axisColor).cell? col 119 = some ⟨'•', axisColor⟩ := by
  obtain ⟨marks, fine⟩ := line_marks_rows_between (blank 7 239) ⟨399.5, -47999.75⟩ ⟨0, 48000⟩
    axisColor (grid_blank (by decide)) (by decide) (by decide) (by decide +kernel)
    (by decide +kernel) (by decide +kernel) (by decide +kernel)
  have steps := fine (by decide) (by decide +kernel)
  have between : Between 239 (-47999.75) 48000 119 := by decide +kernel
  exact ⟨steps, between, marks steps 119 (by decide) between⟩

-- On as many rows as the screen has pixels, steps can be a whole row apart, and rounding takes one of
-- them back into the row before.
theorem short_line_misses_row :
    let c := blank 1 240
    let source : Point Float := ⟨0, 0⟩
    let target : Point Float := ⟨0, 22⟩
    (c.columns ≤ screenWidth ∧ c.rows ≤ screenHeight ∧ source.y.isFinite = true ∧
      target.y.isFinite = true ∧ (0 ≤ source.x ∧ source.x < screenWidth.toUInt64.toFloat) ∧
      0 ≤ target.x ∧ target.x < screenWidth.toUInt64.toFloat) ∧
      Between c.rows source.y target.y 15 ∧
      ∀ col < c.columns, (c.line source target axisColor).cell? col 15 = none := by
  refine ⟨by decide +kernel, by decide +kernel, fun col left => ?_⟩
  obtain rfl : col = 0 := Nat.lt_one_iff.mp left
  decide +kernel

end Line

section Far

-- Ten million pixels below the screen.
def distant : Point Float := ⟨0, 10000000⟩

theorem steps?_distant : steps? ⟨0, 0⟩ distant = some 96000 := by decide +kernel

theorem toRat_start : toRat (value 0) = 0 := by
  have none : value 0 = 0 * unitsPerOne := by decide +kernel
  rw [none, toRat_units, Int.cast_zero]

theorem toRat_distant : toRat (value distant.y) = 10000000 := by
  have whole : value distant.y = 10000000 * unitsPerOne := by decide +kernel
  rw [whole, toRat_units, Int.cast_ofNat]

theorem toRat_distance : toRat (value distant.y - value 0) = 10000000 := by
  rw [toRat_sub, toRat_start, sub_zero, toRat_distant]

theorem course_distant (i : Nat) : course 0 distant.y 24 96000 i = 125 / 12 * i := by
  rw [course, toRat_start, toRat_distance]
  simp only [screenHeight]
  push_cast
  ring

theorem distant_step_misses {i : Nat} (inside : i < 96001) :
    cellIndex? (along 0 distant.y 96000 i) screenHeight.toUInt64.toFloat 24 ≠ some 5 := by
  intro reached
  rcases Nat.eq_or_lt_of_le (Nat.le_of_lt_succ inside) with rfl | early
  · revert reached
    decide +kernel
  · have left : (0 : Float).isFinite = true := by decide +kernel
    have right : distant.y.isFinite = true := by decide +kernel
    have first : |toRat (value 0)| ≤ 2 ^ 25 := by
      rw [toRat_start]
      norm_num
    have last : |toRat (value distant.y)| ≤ 2 ^ 25 := by
      rw [toRat_distant]
      norm_num
    have reach : |toRat (value distant.y - value 0)| ≤ 2 ^ 25 := by
      rw [toRat_distance]
      norm_num
    have given : 0 < 96000 := by decide
    have few : 96000 ≤ 2 ^ 17 := by decide
    have finite := isFinite_along left right (abs_le_largest reach) given few early
    have close := @place_along_close 0 distant.y 96000 i left right first reach given few early 24
      last (by decide) (by decide)
    obtain ⟨low, high⟩ := between_of_cellIndex?
      (isNaN_place finite (by decide) (by decide)) (by decide) reached
    rw [← toRat_le_toRat, toRat_units] at low
    rw [← toRat_lt_toRat, toRat_units] at high
    push_cast at low high
    rw [course_distant, abs_le] at close
    rcases Nat.eq_zero_or_pos i with rfl | later
    · rw [Nat.cast_zero] at close
      linarith
    · have next : (1 : ℚ) ≤ i := by exact_mod_cast later
      linarith

/-- Beyond as many steps as the screen has pixels, the steps of a segment become longer, and rows are
left out between them. -/
theorem distant_line_misses_row :
    let c := blank 1 24
    let source : Point Float := ⟨0, 0⟩
    (c.columns ≤ screenWidth ∧ c.rows ≤ screenHeight ∧ source.y.isFinite = true ∧
      distant.y.isFinite = true ∧ (0 ≤ source.x ∧ source.x < screenWidth.toUInt64.toFloat) ∧
      0 ≤ distant.x ∧ distant.x < screenWidth.toUInt64.toFloat) ∧
      Between c.rows source.y distant.y 5 ∧
      ¬ ∃ col < c.columns,
        (c.line source distant axisColor).cell? col 5 = some ⟨'•', axisColor⟩ := by
  intro c source
  refine ⟨by decide +kernel, by decide +kernel, ?_⟩
  rintro ⟨col, left, marked⟩
  have grid : c.Grid := grid_blank (by decide)
  rw [line_eq, grid.cell?_foldl left, cell?_blank, Option.or_none] at marked
  obtain ⟨d, member, reached⟩ := exists_dot_of_lastMark? marked
  rw [lineDots_eq (Option.mem_def.mpr steps?_distant)] at member
  obtain ⟨i, inside, rfl⟩ := List.mem_map.mp member
  have place := row_of_cellOf reached
  have rows : (blank 1 24).rows = 24 := rfl
  rw [rows] at place
  exact distant_step_misses (List.mem_range.mp inside) place

end Far

end PolishPlotter.Screen.Canvas
