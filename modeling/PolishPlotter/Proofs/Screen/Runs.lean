import PolishPlotter.Proofs.Screen.Block
import PolishPlotter.Proofs.Screen.Pen

set_option autoImplicit false

namespace PolishPlotter.Screen.Pen

def before (point? : Nat → Option (Point Float)) : Nat → Pen
  | 0 => lifted
  | n + 1 => (before point? n).move (point? n)

def span (point? : Nat → Option (Point Float)) (block : Nat × Nat) : List (Option (Point Float)) :=
  (List.range' block.1 (block.2 - block.1)).map point?

-- The blocks are listed as the runs are, the newest first.
structure Drew (point? : Nat → Option (Point Float)) (n : Nat) (pen : Pen)
    (blocks : List (Nat × Nat)) : Prop where
  runs : pen.runs.map (fun run => run.reverse.map some) = blocks.map (span point?)
  sorted : blocks.Pairwise fun b c => c.2 < b.1
  mem : ∀ first next, (first, next) ∈ blocks ↔ Block point? n first next
  fresh : n = 0 → pen.last = none
  last : ∀ m, n = m + 1 → pen.last = point? m
  joined : pen.joined = true ↔
    ∃ m, n = m + 2 ∧ (point? m).isSome = true ∧ (point? (m + 1)).isSome = true
  newest : pen.joined = true → ∃ first rest, blocks = (first, n) :: rest
  tip : pen.joined = true → ∃ p run rest, pen.runs = (p :: run) :: rest ∧ pen.last = some p

variable {point? : Nat → Option (Point Float)} {n : Nat} {pen : Pen} {blocks : List (Nat × Nat)}

theorem span_succ {first next : Nat} (ordered : first ≤ next) :
    span point? (first, next + 1) = span point? (first, next) ++ [point? next] := by
  have width : next + 1 - first = next - first + 1 := by omega
  have last : first + (next - first) = next := by omega
  simp [span, width, List.range'_1_concat, last]

namespace Drew

theorem lifted : Drew point? 0 lifted [] where
  runs := rfl
  sorted := .nil
  mem first next := by
    constructor
    · intro member
      cases member
    · intro block
      have two := block.two
      have inside := block.inside
      omega
  fresh _ := rfl
  last m h := by omega
  joined := by
    constructor
    · intro h
      cases h
    · intro joined
      obtain ⟨m, h, -⟩ := joined
      omega
  newest h := by cases h
  tip h := by cases h

theorem lone (drew : Drew point? n pen blocks) (h : pen.last = none) :
    ∀ i, i + 1 = n → point? i = none := by
  intro i before
  rw [← drew.last i before.symm, h]

theorem gap (drew : Drew point? n pen blocks) (current : point? n = none) :
    Drew point? (n + 1) (pen.move none) blocks := by
  rw [move_none]
  refine ⟨drew.runs, drew.sorted, ?_, by simp, ?_, ?_, by simp, by simp⟩
  · intro first next
    rw [drew.mem, Block.succ_iff_of_gap current]
  · intro m same
    obtain rfl : n = m := by omega
    exact current.symm
  · constructor
    · intro h
      cases h
    · intro joined
      obtain ⟨m, same, -, drawn⟩ := joined
      obtain rfl : n = m + 1 := by omega
      simp [current] at drawn

theorem alone {q : Point Float} (drew : Drew point? n pen blocks) (current : point? n = some q)
    (previous : pen.last = none) : Drew point? (n + 1) (pen.move (some q)) blocks := by
  rw [move_of_last_none pen previous]
  refine ⟨drew.runs, drew.sorted, ?_, by simp, ?_, ?_, by simp, by simp⟩
  · intro first next
    rw [drew.mem, Block.succ_iff_of_lone (drew.lone previous)]
  · intro m same
    obtain rfl : n = m := by omega
    exact current.symm
  · constructor
    · intro h
      cases h
    · intro joined
      obtain ⟨m, same, drawn, -⟩ := joined
      have undrawn := drew.lone previous m (by omega)
      simp [undrawn] at drawn

theorem start {p q : Point Float} (drew : Drew point? (n + 1) pen blocks)
    (previous : point? n = some p) (current : point? (n + 1) = some q)
    (unjoined : pen.joined = false) :
    Drew point? (n + 2) (pen.move (some q)) ((n, n + 2) :: blocks) := by
  have lone : ∀ i, i + 1 = n → point? i = none := by
    intro i before
    by_contra drawn
    have joined := drew.joined.mpr ⟨i, by omega, by simpa [Option.isSome_iff_ne_none] using drawn,
      by simp [before, previous]⟩
    rw [unjoined] at joined
    cases joined
  rw [move_start pen ((drew.last n rfl).trans previous) unjoined]
  refine ⟨?_, ?_, ?_, by simp, ?_, ?_, fun _ => ⟨n, blocks, rfl⟩, fun _ => ⟨q, [p], _, rfl, rfl⟩⟩
  · have pair : span point? (n, n + 2) = [some p, some q] := by
      simp [span, List.range', previous, current]
    rw [List.map_cons, List.map_cons, drew.runs, pair]
    rfl
  · refine .cons ?_ drew.sorted
    rintro ⟨first, next⟩ member
    have block := (drew.mem first next).mp member
    have two := block.two
    have inside := block.inside
    have open' : next ≠ n + 1 := by
      rintro rfl
      have apart := block.outside (lone (n - 1) (by omega))
      omega
    have apart : next ≠ n := by
      rintro rfl
      have closed := block.after (by omega)
      simp [previous] at closed
    change next < n
    omega
  · intro first next
    rw [Block.succ_iff_of_pair (by simp [previous]) (by simp [current]) lone, List.mem_cons,
      drew.mem, Prod.mk.injEq]
  · intro m same
    obtain rfl : n + 1 = m := by omega
    exact current.symm
  · simp only [true_iff]
    exact ⟨n, rfl, by simp [previous], by simp [current]⟩

theorem extend {q : Point Float} (drew : Drew point? n pen blocks) (current : point? n = some q)
    (joined : pen.joined = true) :
    ∃ blocks, Drew point? (n + 1) (pen.move (some q)) blocks := by
  obtain ⟨m, rfl, -, previous⟩ := drew.joined.mp joined
  obtain ⟨first, rest, rfl⟩ := drew.newest joined
  obtain ⟨p, run, runs, drawn, last⟩ := drew.tip joined
  have open' := (drew.mem first (m + 2)).mp (List.mem_cons_self ..)
  have two := open'.two
  have same := drew.runs
  simp only [drawn, List.map_cons, List.cons.injEq] at same
  have sorted := List.pairwise_cons.mp drew.sorted
  refine ⟨(first, m + 3) :: rest, ?_⟩
  rw [move_continue pen last joined drawn]
  refine ⟨?_, .cons sorted.1 sorted.2, ?_, by simp, ?_, ?_, fun _ => ⟨first, rest, rfl⟩,
    fun _ => ⟨q, p :: run, runs, rfl, rfl⟩⟩
  · rw [List.map_cons, List.map_cons, same.2, span_succ (by omega), ← same.1, current,
      List.reverse_cons, List.map_append]
    rfl
  · intro other next
    have old := drew.mem other next
    rw [List.mem_cons, Prod.mk.injEq] at old
    rw [Block.succ_iff_of_open open' (by simp [current]), List.mem_cons, Prod.mk.injEq, ← old]
    constructor
    · intro block
      rcases block with new | member
      · exact .inl new
      · have apart := sorted.1 _ member
        change next < first at apart
        exact .inr ⟨.inr member, by omega⟩
    · intro block
      rcases block with new | ⟨⟨-, last⟩ | member, other⟩
      · exact .inl new
      · exact absurd last other
      · exact .inr member
  · intro k same
    obtain rfl : m + 2 = k := by omega
    exact current.symm
  · simp only [true_iff]
    exact ⟨m + 1, rfl, previous, by simp [current]⟩

end Drew

theorem before_drew (point? : Nat → Option (Point Float)) (n : Nat) :
    ∃ blocks, Drew point? n (before point? n) blocks := by
  induction n with
  | zero => exact ⟨[], .lifted⟩
  | succ n ih =>
    obtain ⟨blocks, drew⟩ := ih
    rw [before]
    cases current : point? n with
    | none => exact ⟨blocks, drew.gap current⟩
    | some q =>
      cases previous : (before point? n).last with
      | none => exact ⟨blocks, drew.alone current previous⟩
      | some p =>
        cases joined : (before point? n).joined with
        | true => exact drew.extend current joined
        | false =>
          cases n with
          | zero => cases previous
          | succ n =>
            have drawn : point? n = some p := (drew.last n rfl).symm.trans previous
            exact ⟨_, drew.start drawn current joined⟩

-- So there is a run to continue whenever the pen is joined, and it ends at the column before.
theorem newest_of_joined (joined : (before point? n).joined = true) :
    ∃ first run rest, (before point? n).runs = run :: rest ∧ Block point? n first n ∧
      run.reverse.map some = span point? (first, n) := by
  obtain ⟨blocks, drew⟩ := before_drew point? n
  obtain ⟨first, rest, rfl⟩ := drew.newest joined
  obtain ⟨p, run, runs, shown, -⟩ := drew.tip joined
  have same := drew.runs
  simp only [shown, List.map_cons, List.cons.injEq] at same
  exact ⟨first, p :: run, runs, shown, (drew.mem first n).mp (List.mem_cons_self ..), same.1⟩

def segments (pen : Pen) : List (Point Float × Point Float) :=
  pen.drawing.flatMap fun run => run.zip run.tail

def segment? (point? : Nat → Option (Point Float)) (i : Nat) :
    Option (Point Float × Point Float) :=
  (point? i).bind fun p => (point? (i + 1)).map (p, ·)

theorem zip_tail_concat (front : List (Point Float)) (p q : Point Float) :
    (front ++ [p, q]).zip (front ++ [p, q]).tail =
      (front ++ [p]).zip (front ++ [p]).tail ++ [(p, q)] := by
  induction front with
  | nil => rfl
  | cons a rest ih => cases rest <;> simp_all

theorem segments_start {p q : Point Float} (h : pen.last = some p) (lone : pen.joined = false) :
    (pen.move (some q)).segments = pen.segments ++ [(p, q)] := by
  rw [move_start pen h lone]
  simp [segments, drawing]

theorem segments_continue {p q : Point Float} {run : List (Point Float)}
    {rest : List (List (Point Float))} (h : pen.last = some p) (joined : pen.joined = true)
    (runs : pen.runs = (p :: run) :: rest) :
    (pen.move (some q)).segments = pen.segments ++ [(p, q)] := by
  rw [move_continue pen h joined runs]
  have grown := zip_tail_concat run.reverse p q
  simp only [segments, drawing, runs, List.map_cons, List.reverse_cons, List.flatMap_append,
    List.append_assoc, List.flatMap_cons, List.flatMap_nil, List.append_nil]
  rw [← grown]
  simp

theorem Drew.segments_move (drew : Drew point? n pen blocks) (current : Option (Point Float)) :
    (pen.move current).segments =
      pen.segments ++ (pen.last.bind fun p => current.map (p, ·)).toList := by
  cases current with
  | none =>
    rw [move_none]
    cases pen.last <;> simp [segments, drawing]
  | some q =>
    cases last : pen.last with
    | none =>
      rw [move_of_last_none pen last]
      simp [segments, drawing]
    | some p =>
      cases joined : pen.joined with
      | false => exact segments_start last joined
      | true =>
        obtain ⟨tip, run, rest, runs, same⟩ := drew.tip joined
        obtain rfl : p = tip := Option.some.inj (last.symm.trans same)
        exact segments_continue last joined runs

theorem segments_before (point? : Nat → Option (Point Float)) (n : Nat) :
    (before point? n).segments = (List.range (n - 1)).filterMap (segment? point?) := by
  induction n with
  | zero => rfl
  | succ n ih =>
    obtain ⟨blocks, drew⟩ := before_drew point? n
    rw [before, drew.segments_move, ih]
    cases n with
    | zero => rfl
    | succ n =>
      rw [drew.last n rfl, Nat.add_sub_cancel, Nat.add_sub_cancel, List.range_succ,
        List.filterMap_append, ← segment?]
      cases found : segment? point? n <;> simp [found]

end PolishPlotter.Screen.Pen
