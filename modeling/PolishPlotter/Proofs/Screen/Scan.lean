import PolishPlotter.Screen.Curve

set_option autoImplicit false

namespace PolishPlotter.Screen

open Machine

namespace Column

theorem error?_ofResult {view : Viewport Float} {x : Float} {result : Except Error Float}
    {e : Error} :
    (ofResult view x result).error? = some e ↔ result = .error e ∧ e.isPointwise = false := by
  cases result with
  | ok y =>
    have continues : (ofResult view x (.ok y)).error? = none := by
      simp only [ofResult]
      repeat' split
      all_goals rfl
    simp [continues]
  | error f =>
    by_cases pointwise : f.isPointwise = true
    · have other : f = e → e.isPointwise = true := fun same => same ▸ pointwise
      simpa [ofResult, pointwise, error?] using other
    · have structural : f.isPointwise = false := by simpa using pointwise
      simp only [ofResult, structural, Bool.false_eq_true, if_false, error?, Option.some.injEq,
        Except.error.injEq]
      exact ⟨fun same => ⟨same, same ▸ structural⟩, And.left⟩

end Column

namespace Sampler

variable (column : Nat → Column)

theorem scanFrom_eq (start count : Nat) :
    scanFrom column start count =
      ((List.range' start count).take
        ((List.range' start count).findIdx (fun i => (column i).stops) + 1)).map column := by
  induction count generalizing start with
  | zero => rfl
  | succ count ih =>
    rw [List.range'_succ, List.take_succ_cons, List.map_cons, List.findIdx_cons]
    cases found : column start with
    | abandoned e => simp [scanFrom, found, Column.stops, Column.error?]
    | drawn | offScale | notFinite | undefined =>
      simp [scanFrom, found, ih, Column.stops, Column.error?]

theorem mem_scanFrom {start count : Nat} {c : Column} (h : c ∈ scanFrom column start count) :
    ∃ i, c = column i := by
  rw [scanFrom_eq] at h
  obtain ⟨i, -, same⟩ := List.mem_map.mp h
  exact ⟨i, same.symm⟩

-- Either no column stops the scan, or column `k` is the first that does.
theorem scanFrom_zero (count : Nat) :
    ∃ k ≤ count, (∀ i < k, (column i).stops = false) ∧
      ((k = count ∧ scanFrom column 0 count = (List.range k).map column) ∨
        (k < count ∧ (column k).stops = true ∧
          scanFrom column 0 count = (List.range k).map column ++ [column k])) := by
  have listed := scanFrom_eq column 0 count
  rw [← List.range_eq_range', List.take_range] at listed
  generalize found : (List.range count).findIdx (fun i => (column i).stops) = k at listed
  have bounded : k ≤ count := by
    have within : (List.range count).findIdx (fun i => (column i).stops) ≤
        (List.range count).length := List.findIdx_le_length
    rwa [found, List.length_range] at within
  refine ⟨k, bounded, ?_, ?_⟩
  · intro i early
    rw [← found] at early
    simpa using List.not_of_lt_findIdx early
  · by_cases all : k = count
    · left
      rw [all] at listed ⊢
      exact ⟨rfl, by simpa using listed⟩
    · right
      have inside : (List.range count).findIdx (fun i => (column i).stops) <
          (List.range count).length := by
        rw [found, List.length_range]
        omega
      have stopped := List.findIdx_getElem (w := inside)
      have size : min (k + 1) count = k + 1 := by omega
      rw [size, List.range_succ, List.map_append] at listed
      exact ⟨by omega, by simpa [found] using stopped, listed⟩

theorem scan_congr {limit : Nat} {instructions other : List Instruction} {v w : Vars}
    (s : Sampler) (view : Viewport Float)
    (same : ∀ x, execute limit ⟨v, x⟩ instructions = execute limit ⟨w, x⟩ other) :
    s.scan limit instructions view v = s.scan limit other view w := by
  have columns : s.column limit instructions view v = s.column limit other view w := by
    funext i
    simp only [Sampler.column, same]
  rw [scan, scan, columns]

end Sampler

end PolishPlotter.Screen
