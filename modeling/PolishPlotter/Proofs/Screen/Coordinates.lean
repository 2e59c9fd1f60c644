import Mathlib.Algebra.Order.Field.Basic
import Mathlib.Data.List.Basic
import PolishPlotter.Proofs.Screen.Exact
import PolishPlotter.Proofs.Screen.Tracing

set_option autoImplicit false

namespace PolishPlotter.Screen

open Machine

section Run

variable {α : Type} [Scalar α]

def Sampler.pointOf? (s : Sampler) (view : Viewport α) (value? : α → Option α) (i : Nat) :
    Option (Point α) :=
  let x := s.columnToX view i
  (value? x).bind fun y =>
    let p := view.toScreen ⟨x, y⟩
    if Scalar.isFinite y && p.isFinite then some p else none

def IsRun (point? : Nat → Option (Point α)) (stop : Nat) (run : List (Point α)) : Prop :=
  ∃ first next, Block point? stop first next ∧
    run.map some = (List.range' first (next - first)).map point?

theorem map_some_injective (β : Type) : Function.Injective (List.map (some : β → Option β)) :=
  List.map_injective_iff.mpr (Option.some_injective _)

theorem column_pointOf? (s : Sampler) (limit : Nat) (instructions : List Instruction)
    (view : Viewport Float) (vars : Vars) (i : Nat) :
    (s.column limit instructions view vars i).point? =
      s.pointOf? view (fun x => (execute limit ⟨vars, x⟩ instructions).toOption) i := by
  rw [s.column_point?, Sampler.point?, Sampler.pointOf?]
  cases execute limit ⟨vars, s.columnToX view i⟩ instructions <;> rfl

theorem mem_runs_sample (s : Sampler) (limit : Nat) (instructions : List Instruction)
    (view : Viewport Float) (vars : Vars) :
    ∃ k ≤ s.width, ∀ run, run ∈ (s.sample limit instructions view vars).runs ↔
      IsRun (s.pointOf? view fun x => (execute limit ⟨vars, x⟩ instructions).toOption) k run := by
  obtain ⟨k, bounded, blocks, -, -, member, listed⟩ := sample_blocks s limit instructions view vars
  have points := funext (column_pointOf? s limit instructions view vars)
  rw [points] at listed
  simp only [column_pointOf?] at member
  refine ⟨k, bounded, fun run => ?_⟩
  rw [← List.mem_map_of_injective (map_some_injective _), listed, List.mem_map]
  constructor
  · rintro ⟨⟨first, next⟩, inside, same⟩
    exact ⟨first, next, (member first next).mp inside, same.symm⟩
  · rintro ⟨first, next, block, same⟩
    exact ⟨(first, next), (member first next).mpr block, same.symm⟩

end Run

section Interpolate

variable {v w a b c d : ℚ}

theorem interpolate_eq_slope (v a b c d : ℚ) :
    interpolate v a b c d = c + (v - a) * ((d - c) / (b - a)) := by
  rw [interpolate_exact, mul_div_assoc]

-- The range in between cancels.
theorem interpolate_interpolate (apart : c ≠ d) (v a b e f : ℚ) :
    interpolate (interpolate v a b c d) c d e f = interpolate v a b e f := by
  have span : d - c ≠ 0 := sub_ne_zero.mpr apart.symm
  calc interpolate (interpolate v a b c d) c d e f
      = e + (v - a) * ((d - c) / (b - a)) * ((f - e) / (d - c)) := by
        rw [interpolate_eq_slope, interpolate_eq_slope v a b c d, add_sub_cancel_left]
    _ = e + (v - a) * ((f - e) / (b - a)) := by
      rw [mul_assoc, div_mul_div_comm, mul_comm (b - a), mul_div_mul_left _ _ span]
    _ = interpolate v a b e f := (interpolate_eq_slope v a b e f).symm

theorem interpolate_same (apart : a ≠ b) (v : ℚ) : interpolate v a b a b = v := by
  rw [interpolate_eq_slope, div_self (sub_ne_zero.mpr apart.symm), mul_one, add_sub_cancel]

theorem interpolate_inverse (apart : a ≠ b) (other : c ≠ d) (v : ℚ) :
    interpolate (interpolate v a b c d) c d a b = v := by
  rw [interpolate_interpolate other, interpolate_same apart]

theorem interpolate_lt_iff (ranges : a < b) (rising : c < d) :
    interpolate v a b c d < interpolate w a b c d ↔ v < w := by
  have slope : 0 < (d - c) / (b - a) := div_pos (sub_pos.mpr rising) (sub_pos.mpr ranges)
  rw [interpolate_eq_slope, interpolate_eq_slope, add_lt_add_iff_left,
    mul_lt_mul_iff_left₀ slope, sub_lt_sub_iff_right]

theorem interpolate_lt_iff_of_falling (ranges : a < b) (falling : d < c) :
    interpolate v a b c d < interpolate w a b c d ↔ w < v := by
  have slope : (d - c) / (b - a) < 0 :=
    div_neg_of_neg_of_pos (sub_neg.mpr falling) (sub_pos.mpr ranges)
  rw [interpolate_eq_slope, interpolate_eq_slope, add_lt_add_iff_left,
    mul_lt_mul_right_of_neg slope, sub_lt_sub_iff_right]

end Interpolate

section View

variable {v : Viewport ℚ}

theorem toDomain_toScreen (across : v.xmin < v.xmax) (upward : v.ymin < v.ymax) (p : Point ℚ) :
    v.toDomain (v.toScreen p) = p := by
  ext
  · exact interpolate_inverse across.ne (by decide +kernel) p.x
  · exact interpolate_inverse upward.ne (by decide +kernel) p.y

theorem toScreen_toDomain (across : v.xmin < v.xmax) (upward : v.ymin < v.ymax) (p : Point ℚ) :
    v.toScreen (v.toDomain p) = p := by
  ext
  · exact interpolate_inverse (by decide +kernel) across.ne p.x
  · exact interpolate_inverse (by decide +kernel) upward.ne p.y

variable {s : Sampler} {i : Nat}

-- The width of the screen is no special case.
theorem columnToX_exact (v : Viewport ℚ) (several : 2 ≤ s.width) (i : Nat) :
    s.columnToX v i = interpolate (i : ℚ) 0 ((s.width : ℚ) - 1) v.xmin v.xmax := by
  rw [Sampler.columnToX]
  split
  · next whole =>
    rw [whole]
    exact congrArg (interpolate (i : ℚ) 0 · v.xmin v.xmax) (by decide +kernel)
  · have last : ((s.width - 1 : Nat) : ℚ) = (s.width : ℚ) - 1 := Nat.cast_pred (by omega)
    have wide : 1 < s.width := several
    rw [if_pos wide, ← last]
    rfl

-- Where a column lies on the screen.
def Sampler.abscissa (s : Sampler) (i : Nat) : ℚ := i * 399 / (s.width - 1)

theorem toScreen_columnToX (across : v.xmin < v.xmax) (several : 2 ≤ s.width) (i : Nat) (y : ℚ) :
    (v.toScreen ⟨s.columnToX v i, y⟩).x = s.abscissa i := by
  have shown : (v.toScreen ⟨s.columnToX v i, y⟩).x =
      interpolate (interpolate (i : ℚ) 0 ((s.width : ℚ) - 1) v.xmin v.xmax) v.xmin v.xmax 0 399 := by
    rw [← columnToX_exact v several]
    rfl
  rw [shown, interpolate_interpolate across.ne, interpolate_exact, Sampler.abscissa, zero_add,
    sub_zero, sub_zero, sub_zero]

variable (several : 2 ≤ s.width)

include several

theorem last_pos : 0 < (s.width : ℚ) - 1 := by
  have cast : (2 : ℚ) ≤ s.width := by exact_mod_cast several
  linarith

theorem abscissa_lt {j : Nat} (before : i < j) : s.abscissa i < s.abscissa j := by
  have cast : (i : ℚ) < j := by exact_mod_cast before
  exact div_lt_div_of_pos_right (by linarith) (last_pos several)

theorem abscissa_nonneg (i : Nat) : 0 ≤ s.abscissa i :=
  div_nonneg (by positivity) (last_pos several).le

theorem abscissa_le (inside : i < s.width) : s.abscissa i ≤ 399 := by
  have cast : (i : ℚ) + 1 ≤ s.width := by exact_mod_cast inside
  rw [Sampler.abscissa, div_le_iff₀ (last_pos several)]
  linarith

end View

section Abscissas

variable {v : Viewport ℚ} {s : Sampler} {value? : ℚ → Option ℚ} {stop : Nat} {run : List (Point ℚ)}

-- No exact value is off the scale.
theorem pointOf?_exact (s : Sampler) (v : Viewport ℚ) (value? : ℚ → Option ℚ) (i : Nat) :
    s.pointOf? v value? i =
      (value? (s.columnToX v i)).map fun y => v.toScreen ⟨s.columnToX v i, y⟩ := by
  rw [Sampler.pointOf?]
  cases value? (s.columnToX v i) <;> rfl

theorem abscissas_run (across : v.xmin < v.xmax) (several : 2 ≤ s.width)
    (drawn : IsRun (s.pointOf? v value?) stop run) :
    ∃ first next, next ≤ stop ∧
      run.map (·.x) = (List.range' first (next - first)).map s.abscissa := by
  obtain ⟨first, next, block, listed⟩ := drawn
  refine ⟨first, next, block.inside, ?_⟩
  have placed : ∀ i ∈ List.range' first (next - first),
      (s.pointOf? v value? i).map (·.x) = some (s.abscissa i) := by
    intro i member
    have within := List.mem_range'_1.mp member
    obtain ⟨p, point⟩ := Option.isSome_iff_exists.mp (block.drawn i within.1 (by omega))
    rw [pointOf?_exact, Option.map_eq_some_iff] at point
    obtain ⟨y, valued, -⟩ := point
    rw [pointOf?_exact, valued]
    exact congrArg some (toScreen_columnToX across several i y)
  apply map_some_injective ℚ
  calc (run.map (·.x)).map some
      = (run.map some).map (Option.map (·.x)) := by
        simp only [List.map_map, Function.comp_def, Option.map_some]
    _ = (List.range' first (next - first)).map fun i => (s.pointOf? v value? i).map (·.x) := by
      rw [listed, List.map_map]
      rfl
    _ = ((List.range' first (next - first)).map s.abscissa).map some := by
      rw [List.map_map]
      exact List.map_congr_left placed

theorem run_rises (across : v.xmin < v.xmax) (several : 2 ≤ s.width) (inside : stop ≤ s.width)
    (drawn : IsRun (s.pointOf? v value?) stop run) :
    run.Pairwise (·.x < ·.x) ∧ ∀ p ∈ run, 0 ≤ p.x ∧ p.x ≤ 399 := by
  obtain ⟨first, next, within, listed⟩ := abscissas_run across several drawn
  constructor
  · have ordered : (List.range' first (next - first)).Pairwise (· < ·) := List.pairwise_lt_range'
    have sorted : ((List.range' first (next - first)).map s.abscissa).Pairwise (· < ·) :=
      ordered.map _ fun i j => abscissa_lt several
    rwa [← listed, List.pairwise_map] at sorted
  · intro p member
    have placed : p.x ∈ run.map (·.x) := List.mem_map_of_mem member
    rw [listed] at placed
    obtain ⟨i, found, same⟩ := List.mem_map.mp placed
    have bounds := List.mem_range'_1.mp found
    rw [← same]
    exact ⟨abscissa_nonneg several i, abscissa_le several (by omega)⟩

end Abscissas

theorem screen_and_domain_agree (v : Viewport ℚ) (across : v.xmin < v.xmax)
    (upward : v.ymin < v.ymax) :
    (∀ p, v.toDomain (v.toScreen p) = p ∧ v.toScreen (v.toDomain p) = p) ∧
    (∀ p q, ((v.toScreen p).x < (v.toScreen q).x ↔ p.x < q.x) ∧
      ((v.toScreen p).y < (v.toScreen q).y ↔ q.y < p.y)) ∧
    ∀ s : Sampler, 2 ≤ s.width →
      (∀ i < s.width, ∀ y,
        (v.toScreen ⟨s.columnToX v i, y⟩).x = (i : ℚ) * 399 / ((s.width : ℚ) - 1)) ∧
      (∀ (value? : ℚ → Option ℚ) (k : Nat) (run : List (Point ℚ)), k ≤ s.width →
        IsRun (s.pointOf? v value?) k run →
        run.Pairwise (·.x < ·.x) ∧ ∀ p ∈ run, 0 ≤ p.x ∧ p.x ≤ 399) ∧
      ∀ limit instructions (view : Viewport Float) vars, ∃ k ≤ s.width, ∀ run,
        run ∈ (s.sample limit instructions view vars).runs ↔
          IsRun (s.pointOf? view fun x => (execute limit ⟨vars, x⟩ instructions).toOption) k run := by
  refine ⟨?_, ?_, ?_⟩
  · intro p
    exact ⟨toDomain_toScreen across upward p, toScreen_toDomain across upward p⟩
  · intro p q
    exact ⟨interpolate_lt_iff across (by decide +kernel),
      interpolate_lt_iff_of_falling upward (by decide +kernel)⟩
  · intro s several
    refine ⟨?_, ?_, mem_runs_sample s⟩
    · intro i _ y
      exact toScreen_columnToX across several i y
    · intro value? k run inside drawn
      exact run_rises across several inside drawn

-- The straight line `x`, seen askew and sampled in three columns.
theorem diagonal_agrees :
    let v : Viewport ℚ := ⟨-3, 7, 1, 2⟩
    let x (i : Nat) : ℚ := Sampler.columnToX ⟨3⟩ v i
    let point (i : Nat) : Point ℚ := v.toScreen ⟨x i, x i⟩
    v.toDomain (v.toScreen ⟨1 / 3, 9⟩) = ⟨1 / 3, 9⟩ ∧ (point 1).x = 1 * 399 / (3 - 1) ∧
      [point 0, point 1, point 2].Pairwise (·.x < ·.x) := by
  intro v x point
  obtain ⟨inverse, -, columns⟩ := screen_and_domain_agree v (by decide +kernel) (by decide +kernel)
  obtain ⟨placed, rises, -⟩ := columns ⟨3⟩ (by decide)
  have block : Block (Sampler.pointOf? ⟨3⟩ v some) 3 0 3 :=
    ⟨by decide, by decide, fun _ _ _ => rfl, by omega, by omega⟩
  have drawn : IsRun (Sampler.pointOf? ⟨3⟩ v some) 3 [point 0, point 1, point 2] :=
    ⟨0, 3, block, rfl⟩
  exact ⟨(inverse _).1, placed 1 (by decide) _, (rises some 3 _ (by decide) drawn).1⟩

end PolishPlotter.Screen
