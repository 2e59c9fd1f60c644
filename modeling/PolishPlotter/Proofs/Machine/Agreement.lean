import PolishPlotter.Proofs.Machine.Step

set_option autoImplicit false

namespace PolishPlotter.Machine

namespace Vars

variable {vars : Vars} {var other : Var} {name : String}

theorem fetch_store_of_ne (apart : other.index ≠ var.index) (value : Float) :
    (vars.store var value).fetch other = vars.fetch other := by
  simp [fetch, store, apart.symm]

theorem lookup?_eq_some (found : vars.lookup? name = some var) :
    var.name = name ∧ vars.names[var.index]? = some name := by
  obtain ⟨index, position, rfl⟩ := Option.map_eq_some_iff.mp found
  obtain ⟨inside, same, -⟩ := List.findIdx?_eq_some_iff_getElem.mp position
  exact ⟨rfl, by simpa [List.getElem?_eq_some_iff] using ⟨inside, by simpa using same⟩⟩

theorem index_lt_of_lookup? (found : vars.lookup? name = some var) : var.index < vars.size := by
  have inside := (List.getElem?_eq_some_iff.mp (lookup?_eq_some found).2).1
  rwa [vars.aligned] at inside

theorem index_ne_of_name_ne {handle : Var} (found : vars.lookup? var.name = some var)
    (foundOther : vars.lookup? handle.name = some handle) (apart : handle.name ≠ var.name) :
    handle.index ≠ var.index := by
  intro same
  have first := (lookup?_eq_some found).2
  rw [← same, (lookup?_eq_some foundOther).2] at first
  exact apart (Option.some.inj first)

def AgreeOn (instructions : List Instruction) (v w : Vars) : Prop :=
  ∀ var, .push var ∈ instructions → var.isFree = false → v.fetch var = w.fetch var

theorem agreeOn_store_free (instructions : List Instruction) (vars : Vars) (value : Float) :
    AgreeOn instructions (vars.store free value) vars := by
  intro var _ bound
  exact fetch_store_of_ne (by simpa [Var.isFree, free] using bound) value

end Vars

variable {instructions : List Instruction} {σ τ : Scope}

theorem step_congr {i : Instruction} (agree : ∀ var, i = .push var → σ.fetch var = τ.fetch var)
    (s : Stack Float) : step σ s i = step τ s i := by
  cases i with
  | push var => exact congrArg s.push (agree var rfl)
  | _ => rfl

theorem run_congr (agree : ∀ var, .push var ∈ instructions → σ.fetch var = τ.fetch var)
    (s : Stack Float) : run σ s instructions = run τ s instructions := by
  induction instructions generalizing s with
  | nil => rfl
  | cons i rest ih =>
    have later (t : Stack Float) : run σ t rest = run τ t rest :=
      ih (fun var member => agree var (List.mem_cons_of_mem i member)) t
    rw [run_cons, run_cons, step_congr fun var same => agree var (same ▸ List.mem_cons_self)]
    simp only [later]

theorem execute_congr {v w : Vars} (agree : Vars.AgreeOn instructions v w) (limit : Nat)
    (x : Float) : execute limit ⟨v, x⟩ instructions = execute limit ⟨w, x⟩ instructions := by
  have fetched (var : Var) (member : .push var ∈ instructions) :
      Scope.fetch ⟨v, x⟩ var = Scope.fetch ⟨w, x⟩ var := by
    cases free : var.isFree with
    | true => simp [Scope.fetch, free]
    | false => simpa [Scope.fetch, free] using agree var member free
  simp only [execute, run_congr fetched]

end PolishPlotter.Machine
