import PolishPlotter.Proofs.Machine.Agreement

set_option autoImplicit false

namespace PolishPlotter.Machine

namespace Vars

section Define

variable {vars : Vars} {var : Var} {name : String}

theorem lookup?_eq_none_iff : vars.lookup? name = none ↔ name ∉ vars.names := by
  simp only [lookup?, Option.map_eq_none_iff, List.findIdx?_eq_none_iff, decide_eq_false_iff_not]
  exact ⟨fun absent member => absent name member rfl, fun absent other member same =>
    absent (same ▸ member)⟩

theorem define_of_some (found : vars.lookup? name = some var) : vars.define name = (var, vars) := by
  simp only [define, found]

theorem define_of_none (absent : vars.lookup? name = none) :
    vars.define name = (⟨vars.names.length, name⟩, vars.append name) := by
  simp only [define, absent]

theorem lookup?_define (vars : Vars) (name other : String) :
    (vars.define name).2.lookup? other =
      if other = name then some (vars.define name).1 else vars.lookup? other := by
  cases found : vars.lookup? name with
  | some var =>
    rw [define_of_some found]
    split
    · next same => rw [same, found]
    · rfl
  | none =>
    have absent := found
    rw [define_of_none found]
    simp only [lookup?, Option.map_eq_none_iff] at absent
    simp only [lookup?, append, List.findIdx?_append]
    split
    · next same =>
      subst same
      simp [absent]
    · next apart => simp [Ne.symm apart]

theorem nodup_define (distinct : vars.names.Nodup) (name : String) :
    (vars.define name).2.names.Nodup := by
  cases found : vars.lookup? name with
  | some var =>
    rw [define_of_some found]
    exact distinct
  | none =>
    rw [define_of_none found]
    exact List.nodup_append.mpr ⟨distinct, List.pairwise_singleton _ name, by
      rintro other member _ last rfl
      rw [List.mem_singleton.mp last] at member
      exact lookup?_eq_none_iff.mp found member⟩

theorem fetch_define (inside : var.index < vars.size) (name : String) :
    (vars.define name).2.fetch var = vars.fetch var := by
  cases found : vars.lookup? name with
  | some other => rw [define_of_some found]
  | none =>
    rw [define_of_none found]
    simp only [size] at inside
    simp only [fetch, append, List.getElem?_append_left inside]

theorem fetch_define_new (absent : vars.lookup? name = none) :
    (vars.define name).2.fetch (vars.define name).1 = 0 := by
  simp [define_of_none absent, fetch, append, vars.aligned]

theorem fetch_store_self (inside : var.index < vars.size) (value : Float) :
    (vars.store var value).fetch var = value := by
  simp only [size] at inside
  simp [fetch, store, inside]

end Define

-- What is done to the variables; a definition comes with the handle that it returned.
inductive Entry
  | defined (name : String) (var : Var)
  | stored (var : Var) (value : Float)

def Issued (log : List Entry) (var : Var) : Prop := var = free ∨ ∃ name, .defined name var ∈ log

def lastStored? (name : String) : List Entry → Option Float
  | [] => none
  | .stored var value :: earlier =>
    if var.name = name then some value else lastStored? name earlier
  | .defined _ _ :: earlier => lastStored? name earlier

inductive Run : List Entry → Vars → Prop
  | new : Run [] .new
  | define {log : List Entry} {vars : Vars} (name : String) (earlier : Run log vars) :
    Run (.defined name (vars.define name).1 :: log) (vars.define name).2
  | store {log : List Entry} {vars : Vars} {var : Var} (value : Float) (issued : Issued log var)
    (earlier : Run log vars) : Run (.stored var value :: log) (vars.store var value)

variable {log later : List Entry} {vars wider : Vars} {var : Var} {name : String}

theorem issued_stored (value : Float) : Issued (.stored var value :: log) = Issued log := by
  funext other
  simp [Issued]

namespace Run

theorem distinct (run : Run log vars) : vars.names.Nodup := by
  induction run with
  | new => exact List.pairwise_singleton _ "x"
  | define name _ ih => exact nodup_define ih name
  | store value _ _ ih =>
    rw [names_store]
    exact ih

theorem lookup?_iff (run : Run log vars) :
    vars.lookup? name = some var ↔ name = "x" ∧ var = free ∨ .defined name var ∈ log := by
  induction run generalizing name var with
  | new =>
    by_cases same : name = "x"
    · simp [lookup?, Vars.new, same, free, eq_comm]
    · simp [lookup?, Vars.new, same, Ne.symm same]
  | @define log vars defined _ ih =>
    rw [lookup?_define]
    split
    · next same =>
      subst same
      constructor
      · rintro ⟨⟩
        exact .inr List.mem_cons_self
      · intro known
        have listed : name = "x" ∧ var = free ∨ .defined name var ∈ log ∨
            var = (vars.define name).1 := by
          simpa [or_comm] using known
        rcases listed with start | before | rfl
        · rw [define_of_some (ih.mpr (.inl start))]
        · rw [define_of_some (ih.mpr (.inr before))]
        · rfl
    · next apart => simp [ih, apart]
  | store value _ _ ih =>
    rw [lookup?_store, ih]
    simp

theorem lookup?_of_issued (run : Run log vars) (issued : Issued log var) :
    vars.lookup? var.name = some var := by
  rcases issued with rfl | ⟨name, defined⟩
  · exact run.lookup?_iff.mpr (.inl ⟨rfl, rfl⟩)
  · have found : vars.lookup? name = some var := run.lookup?_iff.mpr (.inr defined)
    rw [(lookup?_eq_some found).1]
    exact found

theorem issued_of_lookup? (run : Run log vars) (found : vars.lookup? name = some var) :
    Issued log var := by
  rcases run.lookup?_iff.mp found with ⟨-, start⟩ | defined
  · exact .inl start
  · exact .inr ⟨name, defined⟩

-- A name that has no cell has never been stored under: stores are made through issued handles.
theorem lastStored?_of_none (run : Run log vars) (absent : vars.lookup? name = none) :
    lastStored? name log = none := by
  induction run with
  | new => rfl
  | define defined _ ih =>
    rw [lookup?_define] at absent
    split at absent
    · cases absent
    · exact ih absent
  | @store log vars handle value issued earlier ih =>
    rw [lookup?_store] at absent
    have apart : handle.name ≠ name := by
      rintro rfl
      rw [earlier.lookup?_of_issued issued] at absent
      cases absent
    rw [lastStored?, if_neg apart]
    exact ih absent

theorem fetch_issued (run : Run log vars) (issued : Issued log var) :
    vars.fetch var = (lastStored? var.name log).getD 0 := by
  induction run generalizing var with
  | new =>
    obtain rfl : var = free := by simpa [Issued] using issued
    rfl
  | @define log vars name earlier ih =>
    have before (old : Issued log var) :
        (vars.define name).2.fetch var = (lastStored? var.name log).getD 0 := by
      rw [fetch_define (index_lt_of_lookup? (earlier.lookup?_of_issued old)), ih old]
    rcases issued with start | ⟨other, listed⟩
    · exact before (.inl start)
    · rcases List.mem_cons.mp listed with newest | older
      · obtain ⟨rfl, rfl⟩ := Entry.defined.inj newest
        cases found : vars.lookup? other with
        | some handle =>
          rw [define_of_some found] at before ⊢
          exact before (earlier.issued_of_lookup? found)
        | none =>
          have named : (vars.define other).1.name = other := by rw [define_of_none found]
          rw [fetch_define_new found, named, lastStored?, earlier.lastStored?_of_none found]
          rfl
      · exact before (.inr ⟨other, older⟩)
  | @store log vars handle value through earlier ih =>
    rw [issued_stored] at issued
    have own := earlier.lookup?_of_issued through
    have other := earlier.lookup?_of_issued issued
    by_cases same : handle.name = var.name
    · obtain rfl : handle = var := by
        rw [same, other] at own
        exact (Option.some.inj own).symm
      rw [lastStored?, if_pos rfl, fetch_store_self (index_lt_of_lookup? own)]
      rfl
    · rw [lastStored?, if_neg same, fetch_store_of_ne (index_ne_of_name_ne own other (Ne.symm same)),
        ih issued]

-- Nothing that comes later moves a name to another cell.
theorem lookup?_later (run : Run log vars) (longer : Run (later ++ log) wider)
    (found : vars.lookup? name = some var) : wider.lookup? name = some var := by
  have known := run.lookup?_iff.mp found
  refine longer.lookup?_iff.mpr ?_
  rcases known with start | defined
  · exact .inl start
  · exact .inr (List.mem_append_right later defined)

theorem fetch_scope (run : Run log vars) (issued : Issued log var) (other : var ≠ free) (x : Float) :
    Scope.fetch ⟨vars, x⟩ var = vars.fetch var := by
  have found := run.lookup?_of_issued issued
  have first : vars.lookup? "x" = some free := run.lookup?_iff.mpr (.inl ⟨rfl, rfl⟩)
  have bound : var.index ≠ 0 := by
    intro same
    have named := (lookup?_eq_some found).2
    rw [same] at named
    have start := (lookup?_eq_some first).2
    rw [free, named] at start
    rw [Option.some.inj start, first] at found
    exact other (Option.some.inj found).symm
  simp [Scope.fetch, Var.isFree, bound]

end Run

theorem handles_stay_good (run : Run log vars) :
    (vars.names.Nodup ∧ vars.names.length = vars.size ∧ vars.names[0]? = some "x") ∧
    (∀ name var, vars.lookup? name = some var ↔ name = "x" ∧ var = free ∨ .defined name var ∈ log) ∧
    (∀ later wider, Run (later ++ log) wider → ∀ name var, vars.lookup? name = some var →
      wider.lookup? name = some var ∧ wider.define name = (var, wider) ∧
        ∀ other, .defined name other ∈ later ++ log → other = var) ∧
    (∀ name var, var.index < vars.size → (vars.define name).2.fetch var = vars.fetch var) ∧
    (∀ var, Issued log var → vars.fetch var = (lastStored? var.name log).getD 0) ∧
    ∀ x, Scope.fetch ⟨vars, x⟩ free = x ∧
      ∀ var, Issued log var → var ≠ free → Scope.fetch ⟨vars, x⟩ var = vars.fetch var := by
  have first : vars.lookup? "x" = some free := run.lookup?_iff.mpr (.inl ⟨rfl, rfl⟩)
  refine ⟨⟨run.distinct, vars.aligned, (lookup?_eq_some first).2⟩,
    fun name var => run.lookup?_iff, ?_, fun name var inside => fetch_define inside name,
    fun var => run.fetch_issued, fun x => ⟨rfl, fun var issued other => run.fetch_scope issued other x⟩⟩
  intro later wider longer name var found
  have still := run.lookup?_later longer found
  refine ⟨still, define_of_some still, ?_⟩
  intro other defined
  have own : wider.lookup? name = some other := longer.lookup?_iff.mpr (.inr defined)
  rw [still] at own
  exact (Option.some.inj own).symm

-- `a` is set and then defined once more, with a store to the free variable in between.
def redefinition : List Entry :=
  [.defined "a" ⟨1, "a"⟩, .stored free 99, .stored ⟨1, "a"⟩ 0.25, .defined "a" ⟨1, "a"⟩]

theorem redefinition_keeps_value :
    ∃ vars, Run redefinition vars ∧ vars.define "a" = (⟨1, "a"⟩, vars) ∧
      vars.fetch ⟨1, "a"⟩ = 0.25 ∧ Scope.fetch ⟨vars, 3⟩ free = 3 ∧
      Scope.fetch ⟨vars, 3⟩ ⟨1, "a"⟩ = 0.25 ∧
      (vars.define "b").2.fetch ⟨1, "a"⟩ = 0.25 := by
  have issued : Issued [.defined "a" ⟨1, "a"⟩] ⟨1, "a"⟩ := .inr ⟨"a", List.mem_cons_self⟩
  have run : Run redefinition _ :=
    .define "a" (.store 99 (.inl rfl) (.store 0.25 issued (.define "a" .new)))
  have listed : Issued redefinition ⟨1, "a"⟩ := .inr ⟨"a", List.mem_cons_self⟩
  obtain ⟨-, known, stable, kept, current, bound⟩ := handles_stay_good run
  have found := (known "a" ⟨1, "a"⟩).mpr (.inr List.mem_cons_self)
  have value := current ⟨1, "a"⟩ listed
  refine ⟨_, run, (stable [] _ run "a" _ found).2.1, value, (bound 3).1, ?_, ?_⟩
  · exact ((bound 3).2 _ listed (by decide)).trans value
  · exact (kept "b" ⟨1, "a"⟩ (by decide)).trans value

end Vars

end PolishPlotter.Machine
