import PolishPlotter.Proofs.Machine.Peak
import PolishPlotter.Proofs.Screen.Scan

set_option autoImplicit false

namespace PolishPlotter.Screen

open Machine

theorem scanFrom_congr {column other : Nat → Column} {failure : Error}
    (same : ∀ i, (column i).error? ≠ some failure → other i = column i) {start count : Nat}
    (clean : (Sampler.scanFrom column start count).findSome? Column.error? ≠ some failure) :
    Sampler.scanFrom other start count = Sampler.scanFrom column start count := by
  induction count generalizing start with
  | zero => rfl
  | succ count ih =>
    have here : (column start).error? ≠ some failure := by
      intro failed
      refine clean ?_
      unfold Sampler.scanFrom
      cases found : column start with
      | abandoned e =>
        rw [found] at failed
        exact failed
      | drawn | offScale | notFinite | undefined =>
        rw [found] at failed
        cases failed
    have alike := same start here
    unfold Sampler.scanFrom at clean ⊢
    rw [alike]
    cases found : column start with
    | abandoned e => rfl
    | drawn | offScale | notFinite | undefined =>
      rw [found] at clean
      exact congrArg _ (ih clean)

section Column

variable {limit larger : Nat} {instructions : List Instruction} {s : Sampler}
  {view : Viewport Float} {vars : Vars}

theorem column_of_larger (roomier : limit ≤ larger) (i : Nat)
    (fits : (s.column limit instructions view vars i).error? ≠ some .overflow) :
    s.column larger instructions view vars i = s.column limit instructions view vars i := by
  simp only [Sampler.column] at fits ⊢
  rw [execute_eq_freeOutcome] at fits ⊢
  rw [execute_eq_freeOutcome limit]
  by_cases beyond : limit < peak ⟨vars, s.columnToX view i⟩ [] instructions
  · rw [if_pos beyond] at fits
    exact absurd rfl fits
  · rw [if_neg beyond, if_neg (by omega)]

theorem sample_of_larger (roomier : limit ≤ larger)
    (fits : (s.sample limit instructions view vars).error ≠ some .overflow) :
    s.sample larger instructions view vars = s.sample limit instructions view vars :=
  congrArg Curve.ofColumns (scanFrom_congr (column_of_larger roomier) fits)

end Column

theorem stack_limit_threshold (instructions : List Instruction) :
    (∀ scope : Scope, ∃ depth ≤ instructions.length, ∃ outcome : Except Error Float,
      (∀ e, outcome = .error e → e.code ≠ .overflow) ∧
      (∀ limit, depth ≤ limit → execute limit scope instructions = outcome) ∧
      ∀ limit, limit < depth → execute limit scope instructions = .error .overflow) ∧
    ∀ (s : Sampler) (view : Viewport Float) (vars : Vars) (limit larger : Nat), limit ≤ larger →
      (∀ e, (s.sample limit instructions view vars).error = some e → e.code ≠ .overflow) →
      s.sample larger instructions view vars = s.sample limit instructions view vars := by
  constructor
  · intro scope
    have bounded : peak scope [] instructions ≤ 0 + instructions.length := peak_le
    refine ⟨peak scope [] instructions, by omega, freeOutcome scope instructions,
      fun e => freeOutcome_code, ?_, ?_⟩
    · intro limit room
      rw [execute_eq_freeOutcome, if_neg (Nat.not_lt.mpr room)]
    · intro limit beyond
      rw [execute_eq_freeOutcome, if_pos beyond]
  · intro s view vars limit larger roomier other
    refine sample_of_larger roomier fun failed => ?_
    exact other _ failed rfl

-- `x 1 +`, of which the sum itself takes no room.
def successor : List Instruction := [.push Vars.free, .literal 1, .binary .add]

theorem successor_fits_two :
    (Sampler.sample ⟨3⟩ 2 successor Viewport.default Vars.new).error = none ∧
      Sampler.sample ⟨3⟩ 256 successor Viewport.default Vars.new =
        Sampler.sample ⟨3⟩ 2 successor Viewport.default Vars.new ∧
      (Sampler.sample ⟨3⟩ 1 successor Viewport.default Vars.new).error = some .overflow := by
  have clean : (Sampler.sample ⟨3⟩ 2 successor Viewport.default Vars.new).error = none := by
    decide +kernel
  refine ⟨clean, ?_, by decide +kernel⟩
  refine (stack_limit_threshold successor).2 ⟨3⟩ _ _ 2 256 (by decide) fun e failed => ?_
  rw [clean] at failed
  cases failed

end PolishPlotter.Screen
