import Mathlib.Tactic.ByContra

set_option autoImplicit false

namespace PolishPlotter.Screen

variable {α : Type} {point? : Nat → Option α}

/-- The columns from `first` up to `next`, at least two, all have a point; the columns on both
sides of them have none, or are not there. -/
structure Block (point? : Nat → Option α) (stop first next : Nat) : Prop where
  two : first + 2 ≤ next
  inside : next ≤ stop
  drawn : ∀ i, first ≤ i → i < next → (point? i).isSome = true
  before : ∀ i, i + 1 = first → point? i = none
  after : next < stop → point? next = none

namespace Block

variable {stop first next n : Nat}

theorem outside {i : Nat} (block : Block point? stop first next) (gap : point? i = none) :
    i < first ∨ next ≤ i := by
  by_contra within
  have drawn := block.drawn i (by omega) (by omega)
  simp [gap] at drawn

-- A column without a point closes the block before it, which was maximal so far.
theorem succ_iff_of_gap (gap : point? n = none) :
    Block point? (n + 1) first next ↔ Block point? n first next := by
  constructor
  · intro block
    have two := block.two
    have inside := block.inside
    have apart := block.outside gap
    exact ⟨two, by omega, block.drawn, block.before, fun _ => block.after (by omega)⟩
  · intro block
    have inside := block.inside
    refine ⟨block.two, by omega, block.drawn, block.before, fun _ => ?_⟩
    by_cases last : next = n
    · rw [last, gap]
    · exact block.after (by omega)

theorem succ_iff_of_lone (lone : ∀ i, i + 1 = n → point? i = none) :
    Block point? (n + 1) first next ↔ Block point? n first next := by
  constructor
  all_goals
    intro block
    have two := block.two
    have inside := block.inside
    have apart := block.outside (lone (n - 1) (by omega))
    exact ⟨two, by omega, block.drawn, block.before, fun _ => block.after (by omega)⟩

theorem succ_iff_of_pair (drawn : (point? n).isSome = true)
    (drawn' : (point? (n + 1)).isSome = true) (lone : ∀ i, i + 1 = n → point? i = none) :
    Block point? (n + 2) first next ↔
      (first = n ∧ next = n + 2) ∨ Block point? (n + 1) first next := by
  constructor
  · intro block
    have two := block.two
    have inside := block.inside
    by_cases last : next = n + 2
    · left
      refine ⟨?_, last⟩
      by_contra differ
      have apart := block.outside (lone (n - 1) (by omega))
      omega
    · right
      have closed := block.after (by omega)
      have other : next ≠ n + 1 := by
        rintro rfl
        simp [closed] at drawn'
      exact ⟨two, by omega, block.drawn, block.before, fun _ => closed⟩
  · intro closed
    rcases closed with ⟨rfl, rfl⟩ | block
    · refine ⟨Nat.le_refl _, Nat.le_refl _, ?_, lone, fun beyond => absurd beyond (Nat.lt_irrefl _)⟩
      intro i low high
      obtain rfl | rfl : i = first ∨ i = first + 1 := by omega
      · exact drawn
      · exact drawn'
    · have two := block.two
      have inside := block.inside
      have apart := block.outside (lone (n - 1) (by omega))
      exact ⟨two, by omega, block.drawn, block.before, fun _ => block.after (by omega)⟩

theorem succ_iff_of_open {start : Nat} (open' : Block point? n start n)
    (drawn : (point? n).isSome = true) :
    Block point? (n + 1) first next ↔
      (first = start ∧ next = n + 1) ∨ (Block point? n first next ∧ next ≠ n) := by
  have two' := open'.two
  constructor
  · intro block
    have two := block.two
    have inside := block.inside
    by_cases last : next = n + 1
    · left
      refine ⟨?_, last⟩
      rcases Nat.lt_trichotomy first start with earlier | same | later
      · have apart := block.outside (open'.before (start - 1) (by omega))
        omega
      · exact same
      · have apart := open'.outside (block.before (first - 1) (by omega))
        omega
    · right
      have closed := block.after (by omega)
      have other : next ≠ n := by
        rintro rfl
        simp [closed] at drawn
      exact ⟨⟨two, by omega, block.drawn, block.before, fun _ => closed⟩, other⟩
  · intro closed
    rcases closed with ⟨rfl, rfl⟩ | ⟨block, other⟩
    · refine ⟨by omega, Nat.le_refl _, ?_, open'.before, ?_⟩
      · intro i low high
        by_cases last : i = n
        · rw [last]
          exact drawn
        · exact open'.drawn i low (by omega)
      · intro beyond
        omega
    · have inside := block.inside
      exact ⟨block.two, by omega, block.drawn, block.before, fun _ => block.after (by omega)⟩

section Neighbours

variable {k m : Nat}

theorem exists_start (drawn : (point? m).isSome = true) :
    ∃ first ≤ m, (∀ i, first ≤ i → i ≤ m → (point? i).isSome = true) ∧
      ∀ i, i + 1 = first → point? i = none := by
  induction m with
  | zero =>
    refine ⟨0, Nat.le_refl 0, ?_, by omega⟩
    intro i _ high
    rwa [Nat.le_zero.mp high]
  | succ m ih =>
    cases previous : point? m with
    | none =>
      refine ⟨m + 1, Nat.le_refl _, ?_, ?_⟩
      · intro i low high
        rwa [Nat.le_antisymm high low]
      · intro i same
        rw [Nat.succ.inj same, previous]
    | some p =>
      obtain ⟨first, early, all, gap⟩ := ih (by rw [previous]; rfl)
      refine ⟨first, Nat.le_succ_of_le early, ?_, gap⟩
      intro i low high
      rcases Nat.le_succ_iff.mp high with within | rfl
      · exact all i low within
      · exact drawn

theorem exists_stop (inside : m < k) (drawn : (point? m).isSome = true) :
    ∃ next, m < next ∧ next ≤ k ∧ (∀ i, m ≤ i → i < next → (point? i).isSome = true) ∧
      (next < k → point? next = none) := by
  induction inside with
  | refl =>
    refine ⟨m + 1, Nat.lt_succ_self m, Nat.le_refl _, ?_, by omega⟩
    intro i low high
    rwa [show i = m by omega]
  | @step k inside ih =>
    obtain ⟨next, after, within, all, gap⟩ := ih
    by_cases open' : next = k ∧ (point? k).isSome = true
    · obtain ⟨rfl, more⟩ := open'
      refine ⟨next + 1, by omega, Nat.le_refl _, ?_, by omega⟩
      intro i low high
      by_cases last : i = next
      · rwa [last]
      · exact all i low (by omega)
    · refine ⟨next, after, by omega, all, fun _ => ?_⟩
      by_cases last : next = k
      · simpa [last] using open'
      · exact gap (by omega)

theorem exists_of_pair (inside : m + 1 < k) (drawn : (point? m).isSome = true)
    (drawn' : (point? (m + 1)).isSome = true) :
    ∃ first next, Block point? k first next ∧ first ≤ m ∧ m + 1 < next := by
  obtain ⟨first, early, front, before⟩ := exists_start drawn
  obtain ⟨next, late, within, back, after⟩ := exists_stop inside drawn'
  refine ⟨first, next, ⟨by omega, within, ?_, before, after⟩, early, late⟩
  intro i low high
  by_cases left : i ≤ m
  · exact front i low left
  · exact back i (by omega) high

theorem exists_iff_neighbour (inside : m < k) (drawn : (point? m).isSome = true) :
    (∃ first next, Block point? k first next ∧ first ≤ m ∧ m < next) ↔
      ∃ j < k, (j = m + 1 ∨ j + 1 = m) ∧ (point? j).isSome = true := by
  constructor
  · rintro ⟨first, next, block, low, high⟩
    have two := block.two
    have stop := block.inside
    by_cases last : m + 1 < next
    · exact ⟨m + 1, by omega, .inl rfl, block.drawn (m + 1) (by omega) last⟩
    · exact ⟨m - 1, by omega, .inr (by omega), block.drawn (m - 1) (by omega) (by omega)⟩
  · rintro ⟨j, within, rfl | rfl, beside⟩
    · obtain ⟨first, next, block, low, high⟩ := exists_of_pair within drawn beside
      exact ⟨first, next, block, low, by omega⟩
    · obtain ⟨first, next, block, low, high⟩ := exists_of_pair inside beside drawn
      exact ⟨first, next, block, by omega, high⟩

end Neighbours

end Block

end PolishPlotter.Screen
