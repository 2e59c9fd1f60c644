import PolishPlotter.Proofs.Screen.Runs
import PolishPlotter.Proofs.Screen.Scan

set_option autoImplicit false

namespace PolishPlotter.Screen

open Machine

def Sampler.point? (s : Sampler) (limit : Nat) (instructions : List Instruction)
    (view : Viewport Float) (vars : Vars) (i : Nat) : Option (Point Float) :=
  let x := s.columnToX view i
  match execute limit ⟨vars, x⟩ instructions with
  | .ok y =>
    let p := view.toScreen ⟨x, y⟩
    if y.isFinite && p.isFinite then some p else none
  | .error _ => none

theorem Sampler.column_point? (s : Sampler) (limit : Nat) (instructions : List Instruction)
    (view : Viewport Float) (vars : Vars) (i : Nat) :
    (s.column limit instructions view vars i).point? = s.point? limit instructions view vars i := by
  simp only [Sampler.column, Sampler.point?]
  cases execute limit ⟨vars, s.columnToX view i⟩ instructions with
  | ok y =>
    simp only [Column.ofResult, Bool.and_eq_true]
    by_cases finite : y.isFinite = true
    · by_cases visible : (view.toScreen ⟨s.columnToX view i, y⟩).isFinite = true <;>
        simp [finite, visible, Column.point?]
    · simp [finite, Column.point?]
  | error e =>
    simp only [Column.ofResult]
    split <;> rfl

theorem Sampler.finite_of_point? {s : Sampler} {limit : Nat} {instructions : List Instruction}
    {view : Viewport Float} {vars : Vars} {i : Nat} {p : Point Float}
    (h : s.point? limit instructions view vars i = some p) : p.isFinite = true := by
  simp only [Sampler.point?] at h
  split at h
  · split at h
    · next finite =>
      cases h
      exact (Bool.and_eq_true_iff.mp finite).2
    · cases h
  · cases h

namespace Pen

theorem after_append_stop (columns : List Column) {c : Column} (stopped : c.stops = true) :
    after (columns ++ [c]) = after columns := by
  simp [after, next, stopped]

theorem after_map_range {column : Nat → Column} {n : Nat}
    (h : ∀ i < n, (column i).stops = false) :
    after ((List.range n).map column) = before (fun i => (column i).point?) n := by
  induction n with
  | zero => rfl
  | succ n ih =>
    have earlier := ih fun i early => h i (Nat.lt_succ_of_lt early)
    rw [List.range_succ, List.map_append, before, ← earlier]
    simp [after, next, h n (Nat.lt_succ_self n)]

end Pen

theorem findSome?_error?_map {column : Nat → Column} {n : Nat}
    (h : ∀ i < n, (column i).stops = false) :
    ((List.range n).map column).findSome? Column.error? = none := by
  simp only [List.findSome?_eq_none_iff, List.mem_map, List.mem_range, forall_exists_index, and_imp]
  rintro _ i early rfl
  simpa [Column.stops] using h i early

-- The scan in one piece: how far it goes, the error it ends with, and where the pen then is.
theorem scan_to_stop (column : Nat → Column) (count : Nat) :
    let columns := Sampler.scanFrom column 0 count
    let point? := fun i => (column i).point?
    ∃ k ≤ count, (∀ i < k, (column i).stops = false) ∧
      ((k = count ∧ columns.findSome? Column.error? = none) ∨
        (k < count ∧ ∃ e, (column k).error? = some e ∧
          columns.findSome? Column.error? = some e)) ∧
      Pen.after columns = Pen.before point? k ∧
      ∀ i ≤ k, Pen.after (columns.take i) = Pen.before point? i := by
  intro columns point?
  obtain ⟨k, bounded, early, ended⟩ := Sampler.scanFrom_zero column count
  have prior (i : Nat) (within : i ≤ k) :
      Pen.after (((List.range k).map column).take i) = Pen.before point? i := by
    rw [← List.map_take, List.take_range, Nat.min_eq_left within]
    exact Pen.after_map_range fun j inside => early j (by omega)
  refine ⟨k, bounded, early, ?_⟩
  rcases ended with ⟨all, listed⟩ | ⟨inside, stopped, listed⟩
  · refine ⟨.inl ⟨all, ?_⟩, ?_, ?_⟩
    · rw [show columns = _ from listed]
      exact findSome?_error?_map early
    · rw [show columns = _ from listed]
      exact Pen.after_map_range early
    · rw [show columns = _ from listed]
      exact prior
  · refine ⟨.inr ⟨inside, ?_⟩, ?_, ?_⟩
    · obtain ⟨e, failed⟩ := Option.isSome_iff_exists.mp stopped
      refine ⟨e, failed, ?_⟩
      rw [show columns = _ from listed, List.findSome?_append, findSome?_error?_map early]
      simp [failed]
    · rw [show columns = _ from listed, Pen.after_append_stop _ stopped]
      exact Pen.after_map_range early
    · intro i within
      rw [show columns = _ from listed, List.take_append_of_le_length (by simpa using within)]
      exact prior i within

theorem Block.outside_of_lone {α : Type} {point? : Nat → Option α} {k first next i : Nat}
    (block : Block point? k first next)
    (lone : ∀ j < k, j = i + 1 ∨ j + 1 = i → point? j = none) : i < first ∨ next ≤ i := by
  have two := block.two
  have inside := block.inside
  by_contra within
  by_cases last : i + 1 < next
  · have apart := block.outside (lone (i + 1) (by omega) (.inl rfl))
    omega
  · have apart := block.outside (lone (i - 1) (by omega) (.inr (by omega)))
    omega

theorem Sampler.finite_of_spans {s : Sampler} {limit : Nat} {instructions : List Instruction}
    {view : Viewport Float} {vars : Vars} {runs : List (List (Point Float))}
    {blocks : List (Nat × Nat)}
    (listed : runs.map (·.map some) =
      blocks.map (Pen.span (s.point? limit instructions view vars))) :
    ∀ run ∈ runs, ∀ p ∈ run, p.isFinite = true := by
  intro run member p inside
  have spanned : run.map some ∈ runs.map (·.map some) := List.mem_map_of_mem member
  rw [listed] at spanned
  obtain ⟨block, -, same⟩ := List.mem_map.mp spanned
  have found : some p ∈ Pen.span (s.point? limit instructions view vars) block := by
    rw [same]
    exact List.mem_map_of_mem inside
  obtain ⟨i, -, point⟩ := List.mem_map.mp found
  exact Sampler.finite_of_point? point

theorem sample_draws_blocks (s : Sampler) (limit : Nat) (instructions : List Instruction)
    (view : Viewport Float) (vars : Vars) :
    let result (i : Nat) := execute limit ⟨vars, s.columnToX view i⟩ instructions
    let point? := s.point? limit instructions view vars
    let curve := s.sample limit instructions view vars
    ∃ k ≤ s.width, ∃ blocks : List (Nat × Nat),
      (∀ i < k, ∀ e, result i = .error e → e.code = .undefined) ∧
      ((k = s.width ∧ curve.error = none) ∨
        (k < s.width ∧ ∃ e, result k = .error e ∧ e.code ≠ .undefined ∧ curve.error = some e)) ∧
      blocks.Pairwise (fun b c => b.2 < c.1) ∧
      (∀ first next, (first, next) ∈ blocks ↔ Block point? k first next) ∧
      curve.runs.map (·.map some) = blocks.map (Pen.span point?) ∧
      (∀ i, (∀ j < k, j = i + 1 ∨ j + 1 = i → point? j = none) →
        ∀ b ∈ blocks, i < b.1 ∨ b.2 ≤ i) ∧
      (∀ run ∈ curve.runs, ∀ p ∈ run, p.isFinite = true) ∧
      curve.segments = (List.range (k - 1)).filterMap (Pen.segment? point?) ∧
      ∀ i ≤ k, ∀ pen, pen = Pen.after ((s.scan limit instructions view vars).take i) →
        pen.joined = true → ∃ first run rest, pen.runs = run :: rest ∧
          Block point? i first i ∧ run.reverse.map some = Pen.span point? (first, i) := by
  intro result point? curve
  let column := s.column limit instructions view vars
  have points : (fun i => (column i).point?) = point? :=
    funext fun i => s.column_point? limit instructions view vars i
  obtain ⟨k, bounded, early, ended, finished, prior⟩ := scan_to_stop column s.width
  rw [points] at finished prior
  obtain ⟨blocks, drew⟩ := Pen.before_drew point? k
  have drawn : curve.runs = (Pen.before point? k).drawing := congrArg Pen.drawing finished
  have listed : curve.runs.map (·.map some) = blocks.reverse.map (Pen.span point?) := by
    rw [drawn, List.map_reverse, ← drew.runs]
    simp [Pen.drawing, Function.comp_def]
  have finite := Sampler.finite_of_spans listed
  refine ⟨k, bounded, blocks.reverse, ?_, ?_, ?_, ?_, listed, ?_, finite, ?_, ?_⟩
  · intro i inside e failed
    by_contra structural
    have stopped : (column i).error? = some e :=
      Column.error?_ofResult.mpr ⟨failed, decide_eq_false structural⟩
    have running := early i inside
    simp [Column.stops, stopped] at running
  · rcases ended with ⟨all, clean⟩ | ⟨inside, e, stopped, failed⟩
    · exact .inl ⟨all, clean⟩
    · obtain ⟨raised, structural⟩ := Column.error?_ofResult.mp stopped
      exact .inr ⟨inside, e, raised, of_decide_eq_false structural, failed⟩
  · exact List.pairwise_reverse.mpr drew.sorted
  · intro first next
    rw [List.mem_reverse, drew.mem]
  · rintro i lone ⟨first, next⟩ member
    have block := (drew.mem first next).mp (List.mem_reverse.mp member)
    exact block.outside_of_lone lone
  · rw [← Pen.segments_before, Pen.segments, ← drawn]
    rfl
  · intro i within pen reached joined
    have stands : pen = Pen.before point? i := reached.trans (prior i within)
    rw [stands] at joined ⊢
    exact Pen.newest_of_joined joined

end PolishPlotter.Screen
