import PolishPlotter.Proofs.Screen.Abandonment
import PolishPlotter.Proofs.Screen.Sampling

set_option autoImplicit false

namespace PolishPlotter.Screen

open Machine

section Column

variable {limit : Nat} {instructions : List Instruction} {vars : Vars} {x y : Float}

theorem traceAt_eq_some :
    (traceAt limit instructions vars x).y = some y ↔
      execute limit ⟨vars, x⟩ instructions = .ok y ∧ y.isFinite = true := by
  unfold traceAt
  cases execute limit ⟨vars, x⟩ instructions with
  | error e => simp
  | ok v =>
    simp only [Option.ite_none_right_eq_some, Option.some.injEq, Except.ok.injEq]
    constructor
    · rintro ⟨finite, rfl⟩
      exact ⟨rfl, finite⟩
    · rintro ⟨rfl, finite⟩
      exact ⟨finite, rfl⟩

-- Where a traced position is seen on the screen.
def Trace.point? (view : Viewport Float) (t : Trace) : Option (Point Float) :=
  t.y.bind fun y =>
    let p := view.toScreen ⟨t.x, y⟩
    if p.isFinite then some p else none

theorem point?_ofResult (limit : Nat) (instructions : List Instruction) (view : Viewport Float)
    (vars : Vars) (x : Float) :
    (Column.ofResult view x (execute limit ⟨vars, x⟩ instructions)).point? =
      (traceAt limit instructions vars x).point? view := by
  unfold traceAt Trace.point?
  cases execute limit ⟨vars, x⟩ instructions with
  | error e =>
    simp only [Column.ofResult]
    split <;> rfl
  | ok y =>
    by_cases finite : y.isFinite = true
    · by_cases visible : (view.toScreen ⟨x, y⟩).isFinite = true <;>
        simp [Column.ofResult, finite, visible, Column.point?]
    · simp [Column.ofResult, finite, Column.point?]

-- The errors that abandon a curve are raised wherever the equation is evaluated.
theorem error_of_traced {s : Sampler} {view : Viewport Float} {other : Vars}
    (traced : (traceAt limit instructions vars x).y = some y) :
    (s.sample limit instructions view other).error = none := by
  cases failed : (s.sample limit instructions view other).error with
  | none => rfl
  | some e =>
    have fails := not_ok_of_shape (shape_of_sample_error failed) ⟨vars, x⟩ y
    exact absurd (traceAt_eq_some.mp traced).1 fails

-- The pointer and the sampler take the same way from a column to its `x`.
theorem trace_at_column {view : Viewport Float} {cursor : Cursor} {i : Nat}
    (placed : cursor.x = .ofNat i) :
    trace limit instructions view vars cursor false =
      traceAt limit instructions vars (Sampler.screen.columnToX view i) := by
  simp only [trace, Viewport.toDomain, Cursor.position, placed]
  rfl

theorem point?_at_column {view : Viewport Float} {cursor : Cursor} {i : Nat}
    (placed : cursor.x = .ofNat i) :
    (Sampler.screen.column limit instructions view vars i).point? =
      (trace limit instructions view vars cursor false).point? view := by
  rw [trace_at_column placed]
  exact point?_ofResult limit instructions view vars _

theorem point?_eq_some {view : Viewport Float} {t : Trace} {p : Point Float} :
    t.point? view = some p ↔
      ∃ y, t.y = some y ∧ (view.toScreen ⟨t.x, y⟩).isFinite = true ∧ view.toScreen ⟨t.x, y⟩ = p := by
  simp only [Trace.point?, Option.bind_eq_some_iff, Option.ite_none_right_eq_some,
    Option.some.injEq]

end Column

theorem sample_blocks (s : Sampler) (limit : Nat) (instructions : List Instruction)
    (view : Viewport Float) (vars : Vars) :
    let point? (i : Nat) := (s.column limit instructions view vars i).point?
    let curve := s.sample limit instructions view vars
    ∃ k ≤ s.width, ∃ blocks : List (Nat × Nat), (curve.error = none → k = s.width) ∧
      blocks.Pairwise (fun b c => b.2 < c.1) ∧
      (∀ first next, (first, next) ∈ blocks ↔ Block point? k first next) ∧
      curve.runs.map (·.map some) = blocks.map (Pen.span point?) := by
  intro point? curve
  obtain ⟨k, bounded, -, ended, finished, -⟩ :=
    scan_to_stop (s.column limit instructions view vars) s.width
  obtain ⟨blocks, drew⟩ := Pen.before_drew point? k
  refine ⟨k, bounded, blocks.reverse, ?_, List.pairwise_reverse.mpr drew.sorted, ?_, ?_⟩
  · intro clean
    rcases ended with ⟨all, -⟩ | ⟨-, e, -, failed⟩
    · exact all
    · exact absurd (failed.symm.trans clean) nofun
  · intro first next
    rw [List.mem_reverse, drew.mem]
  · have drawn : curve.runs = (Pen.before point? k).drawing := congrArg Pen.drawing finished
    rw [drawn, List.map_reverse, ← drew.runs]
    simp [Pen.drawing, Function.comp_def]

theorem trace_agrees_with_curve (limit : Nat) (instructions : List Instruction)
    (view : Viewport Float) (vars : Vars) :
    let curve := Sampler.screen.sample limit instructions view vars
    let point? (i : Nat) := (Sampler.screen.column limit instructions view vars i).point?
    (∃ blocks : List (Nat × Nat),
      curve.runs.map (·.map some) = blocks.map (Pen.span point?) ∧
      blocks.Pairwise (fun b c => b.2 < c.1) ∧
      ∀ i < screenWidth, ∀ cursor : Cursor, cursor.x = .ofNat i →
        let t := trace limit instructions view vars cursor false
        t.x = Sampler.screen.columnToX view i ∧
        (∀ y, t.y = some y →
          let p := view.toScreen ⟨t.x, y⟩
          curve.error = none ∧ (∀ q, point? i = some q ↔ p.isFinite = true ∧ p = q) ∧
          (p.isFinite = true →
            ((∃ b ∈ blocks, b.1 ≤ i ∧ i < b.2) ↔
              ∃ j < screenWidth, (j = i + 1 ∨ j + 1 = i) ∧ (point? j).isSome = true))) ∧
        (t.y = none → point? i = none ∧ ∀ b ∈ blocks, i < b.1 ∨ b.2 ≤ i)) ∧
    ∀ (cursor : Cursor) (snapped : Bool),
      let t := trace limit instructions view vars cursor snapped
      t = traceAt limit instructions vars t.x ∧ ∀ y, t.y = some y → y.isFinite = true := by
  intro curve point?
  constructor
  · obtain ⟨k, -, blocks, complete, sorted, member, listed⟩ :=
      sample_blocks .screen limit instructions view vars
    refine ⟨blocks, listed, sorted, ?_⟩
    intro i inside cursor placed t
    have same : t = traceAt limit instructions vars (Sampler.screen.columnToX view i) :=
      trace_at_column placed
    have seen : point? i = t.point? view := point?_at_column placed
    refine ⟨by rw [same]; rfl, ?_, ?_⟩
    · intro y traced p
      have clean : curve.error = none := error_of_traced (same ▸ traced)
      have drawn (q : Point Float) : point? i = some q ↔ p.isFinite = true ∧ p = q := by
        rw [seen, point?_eq_some]
        simp [traced, p]
      refine ⟨clean, drawn, fun visible => ?_⟩
      have width : k = screenWidth := complete clean
      have own : (point? i).isSome = true := by rw [(drawn p).mpr ⟨visible, rfl⟩]; rfl
      rw [← width, ← Block.exists_iff_neighbour (width ▸ inside) own]
      simp only [Prod.exists, member]
      rfl
    · intro untraced
      have undrawn : point? i = none := by
        rw [seen, Trace.point?, untraced]
        rfl
      refine ⟨undrawn, ?_⟩
      rintro ⟨first, next⟩ listed'
      exact ((member first next).mp listed').outside undrawn
  · intro cursor snapped t
    exact ⟨rfl, fun y traced => (traceAt_eq_some.mp traced).2⟩

-- `x 1 /` is not defined at zero, where this view begins.
def reciprocal : List Instruction := [.push Vars.free, .literal 1, .binary .div]

theorem reciprocal_joins_after_gap :
    let view : Viewport Float := ⟨0, 399, -1, 1⟩
    let curve := Sampler.screen.sample 256 reciprocal view Vars.new
    let point? (i : Nat) := (Sampler.screen.column 256 reciprocal view Vars.new i).point?
    curve.error = none ∧ point? 1 = some ⟨1, 0⟩ ∧
      ∃ blocks : List (Nat × Nat), curve.runs.map (·.map some) = blocks.map (Pen.span point?) ∧
        (∃ b ∈ blocks, b.1 ≤ 1 ∧ 1 < b.2) ∧ ∀ b ∈ blocks, 0 < b.1 ∨ b.2 ≤ 0 := by
  intro view curve point?
  obtain ⟨⟨blocks, listed, -, agree⟩, -⟩ := trace_agrees_with_curve 256 reciprocal view Vars.new
  obtain ⟨-, -, gap⟩ := agree 0 (by decide) (.placed 0 0) (by decide +kernel)
  obtain ⟨-, one, -⟩ := agree 1 (by decide) (.placed 1 0) (by decide +kernel)
  obtain ⟨clean, drawn, joined⟩ := one 1 (by decide +kernel)
  have visible : (view.toScreen ⟨view.columnToX 1, 1⟩).isFinite = true := by decide +kernel
  have place : view.toScreen ⟨view.columnToX 1, 1⟩ = ⟨1, 0⟩ :=
    congrArg₂ Point.mk (by decide +kernel) (by decide +kernel)
  have beside : (point? 2).isSome = true := by decide +kernel
  refine ⟨clean, (drawn _).mpr ⟨visible, place⟩, blocks, listed, ?_, ?_⟩
  · exact (joined visible).mpr ⟨2, by decide, .inl rfl, beside⟩
  · exact (gap (by decide +kernel)).2

end PolishPlotter.Screen
