import PolishPlotter.Session.Loop
import PolishPlotter.Settings.Parse

set_option autoImplicit false

namespace PolishPlotter.Settings

open Screen

structure Spanned (min max : Float) : Prop where
  minFinite : min.isFinite = true
  maxFinite : max.isFinite = true
  spanFinite : (max - min).isFinite = true
  wide : minSpan ≤ max - min

structure Visible (v : Viewport Float) : Prop where
  x : Spanned v.xmin v.xmax
  y : Spanned v.ymin v.ymax

structure Magnifies (factor : Float) : Prop where
  finite : factor.isFinite = true
  enlarges : 1 < factor

structure Moves (rate : Float) : Prop where
  finite : rate.isFinite = true
  positive : 0 < rate

structure Usable (s : Settings) : Prop where
  view : Visible s.view
  zoomFactor : Magnifies s.zoomFactor
  panRate : Moves s.panRate
  stackLimit : 1 ≤ s.stackLimit

section Setting

variable {α : Type} {Fits : α → Prop} {given fallback result : α}

/-- A setting after its repair, which leaves it alone if it fits. -/
structure Repaired (Fits : α → Prop) (given fallback result : α) : Prop where
  keeps : Fits given → result = given
  replaces : ¬ Fits given → result = fallback

theorem repaired_ite (p : Prop) [Decidable p] (test : p ↔ Fits given) :
    Repaired Fits given fallback (if p then given else fallback) where
  keeps usable := if_pos (test.mpr usable)
  replaces unusable := if_neg fun holds => unusable (test.mp holds)

theorem Repaired.fits (repaired : Repaired Fits given fallback result) (safe : Fits fallback) :
    Fits result := by
  by_cases usable : Fits given
  · rw [repaired.keeps usable]
    exact usable
  · rw [repaired.replaces usable]
    exact safe

end Setting

structure Mended (given s : Settings) : Prop where
  view : Repaired Visible given.view default.view s.view
  zoomFactor : Repaired Magnifies given.zoomFactor default.zoomFactor s.zoomFactor
  panRate : Repaired Moves given.panRate default.panRate s.panRate
  stackLimit : Repaired (1 ≤ ·) given.stackLimit default.stackLimit s.stackLimit
  colors : s.colors = given.colors

theorem spanUsable_iff {min max : Float} : spanUsable min max = true ↔ Spanned min max := by
  simp only [spanUsable, Bool.and_eq_true, decide_eq_true_eq]
  constructor
  · rintro ⟨⟨⟨minFinite, maxFinite⟩, spanFinite⟩, wide⟩
    exact ⟨minFinite, maxFinite, spanFinite, wide⟩
  · intro spanned
    exact ⟨⟨⟨spanned.minFinite, spanned.maxFinite⟩, spanned.spanFinite⟩, spanned.wide⟩

theorem viewUsable_iff {v : Viewport Float} : viewUsable v = true ↔ Visible v := by
  simp only [viewUsable, Bool.and_eq_true, spanUsable_iff]
  exact ⟨fun ⟨x, y⟩ => ⟨x, y⟩, fun visible => ⟨visible.x, visible.y⟩⟩

theorem zoomFactorUsable_iff {factor : Float} :
    zoomFactorUsable factor = true ↔ Magnifies factor := by
  simp only [zoomFactorUsable, Bool.and_eq_true, decide_eq_true_eq]
  exact ⟨fun ⟨finite, enlarges⟩ => ⟨finite, enlarges⟩, fun magnifies =>
    ⟨magnifies.finite, magnifies.enlarges⟩⟩

theorem panRateUsable_iff {rate : Float} : panRateUsable rate = true ↔ Moves rate := by
  simp only [panRateUsable, Bool.and_eq_true, decide_eq_true_eq]
  exact ⟨fun ⟨finite, positive⟩ => ⟨finite, positive⟩, fun moves => ⟨moves.finite, moves.positive⟩⟩

theorem usable_default : Usable default where
  view := viewUsable_iff.mp (by decide +kernel)
  zoomFactor := zoomFactorUsable_iff.mp (by decide +kernel)
  panRate := panRateUsable_iff.mp (by decide +kernel)
  stackLimit := by decide

theorem mended_validate (s : Settings) : Mended s s.validate where
  view := repaired_ite _ viewUsable_iff
  zoomFactor := repaired_ite _ zoomFactorUsable_iff
  panRate := repaired_ite _ panRateUsable_iff
  stackLimit := by
    constructor
    · intro room
      exact if_neg (Nat.one_le_iff_ne_zero.mp room)
    · intro full
      exact if_pos (by omega)
  colors := rfl

variable {given s : Settings}

theorem Mended.usable (mended : Mended given s) : Usable s where
  view := mended.view.fits usable_default.view
  zoomFactor := mended.zoomFactor.fits usable_default.zoomFactor
  panRate := mended.panRate.fits usable_default.panRate
  stackLimit := mended.stackLimit.fits usable_default.stackLimit

theorem Mended.eq_of_usable (mended : Mended given s) (usable : Usable given) : s = given := by
  obtain ⟨view, zoomFactor, panRate, stackLimit, colors⟩ := mended
  cases s
  cases given
  simp only [Settings.mk.injEq]
  exact ⟨view.keeps usable.view, zoomFactor.keeps usable.zoomFactor,
    panRate.keeps usable.panRate, stackLimit.keeps usable.stackLimit, colors⟩

theorem validate_validate (s : Settings) : s.validate.validate = s.validate :=
  (mended_validate s.validate).eq_of_usable (mended_validate s).usable

section Reading

variable {reader : Reader} {text : String} {file : File} {loaded : Loaded}

theorem ofText_mended (reads : ofText reader text = .ok loaded) :
    ∃ given, reader.ofText text = .ok given ∧ Mended given loaded.settings := by
  cases given : reader.ofText text with
  | error e =>
    rw [ofText, given] at reads
    cases reads
  | ok own =>
    rw [ofText, given] at reads
    cases reads
    exact ⟨own, rfl, mended_validate own⟩

theorem load_mended (loads : load reader file = .ok loaded) :
    ∃ bytes given, file = some bytes ∧ reader.ofBytes bytes = .ok given ∧
      Mended given loaded.settings := by
  cases file with
  | none => cases loads
  | some bytes =>
    cases given : reader.ofBytes bytes with
    | error e =>
      rw [load, given] at loads
      cases loads
    | ok own =>
      rw [load, given] at loads
      cases loads
      exact ⟨bytes, own, rfl, given, mended_validate own⟩

theorem start_of_ok (loads : load reader file = .ok loaded) (path : String) :
    (start reader (some (path, file))).settings = loaded.settings := by
  simp only [start, loads]

theorem start_of_error {e : LoadError} (fails : load reader file = .error e) (path : String) :
    (start reader (some (path, file))).settings = default := by
  simp only [start, fails]

theorem usable_start (reader : Reader) (named : Named) : Usable (start reader named).settings := by
  cases named with
  | none => exact usable_default
  | some pair =>
    obtain ⟨path, file⟩ := pair
    cases loads : load reader file with
    | error e =>
      rw [start_of_error loads]
      exact usable_default
    | ok loaded =>
      obtain ⟨_, _, -, -, mended⟩ := load_mended loads
      rw [start_of_ok loads]
      exact mended.usable

end Reading

structure Ready (s : Session) : Prop where
  room : 1 ≤ s.settings.stackLimit
  view : Visible s.view

theorem Usable.ready (usable : Usable s) : Ready (.new s) := ⟨usable.stackLimit, usable.view⟩

theorem Usable.ready_start (usable : Usable s) (paint : Paint) (measured : Loop.Measured)
    (raised : Bool) : Ready (Loop.start paint s measured raised).1.session := by
  cases raised <;> exact usable.ready

theorem settings_always_usable (reader : Reader) :
    (∀ s : Settings, Mended s s.validate ∧ Usable s.validate ∧
      s.validate.validate = s.validate) ∧
    (∀ text loaded, ofText reader text = .ok loaded → Usable loaded.settings ∧
      Ready (.new loaded.settings) ∧
      ∃ given, reader.ofText text = .ok given ∧ Mended given loaded.settings) ∧
    (∀ file loaded, load reader file = .ok loaded → Usable loaded.settings ∧
      Ready (.new loaded.settings) ∧
      (∀ path, (start reader (some (path, file))).settings = loaded.settings) ∧
      ∃ bytes given, file = some bytes ∧ reader.ofBytes bytes = .ok given ∧
        Mended given loaded.settings) ∧
    (start reader none).settings = default ∧
    (∀ path, (start reader (some (path, none))).settings = default) ∧
    (∀ file e, load reader file = .error e →
      ∀ path, (start reader (some (path, file))).settings = default) ∧
    ∀ named, Usable (start reader named).settings ∧ ∀ paint measured raised,
      Ready (Loop.start paint (start reader named).settings measured raised).1.session := by
  refine ⟨?_, ?_, ?_, rfl, fun _ => rfl, fun _ _ => start_of_error, ?_⟩
  · intro s
    exact ⟨mended_validate s, (mended_validate s).usable, validate_validate s⟩
  · intro text loaded reads
    obtain ⟨given, parsed, mended⟩ := ofText_mended reads
    exact ⟨mended.usable, mended.usable.ready, given, parsed, mended⟩
  · intro file loaded loads
    obtain ⟨bytes, given, named, parsed, mended⟩ := load_mended loads
    exact ⟨mended.usable, mended.usable.ready, start_of_ok loads, bytes, given, named, parsed, mended⟩
  · intro named
    have usable := usable_start reader named
    exact ⟨usable, usable.ready_start⟩

-- A factor that does not magnify and a stack without room, beside a bound that can be used.
def careless : String :=
  "\x7b\"zoom_factor\": 1, \"stack_limit\": 0, \"view\": \x7b\"xmax\": 10\x7d\x7d"

-- A rate that cannot be used beside a limit that can.
def reckless : List UInt8 :=
  "\x7b\"pan_rate\": -1, \"stack_limit\": 7\x7d".toList.map fun c => .ofNat c.toNat

theorem careless_repaired :
    (∃ loaded, ofText .json careless = .ok loaded ∧ Ready (.new loaded.settings) ∧
      loaded.settings.zoomFactor = default.zoomFactor ∧
      loaded.settings.stackLimit = default.stackLimit ∧
      loaded.settings.view = ⟨-5, 10, -3, 3⟩) ∧
    (∃ loaded, load .json (some reckless) = .ok loaded ∧ Ready (.new loaded.settings) ∧
      loaded.settings.panRate = default.panRate ∧ loaded.settings.stackLimit = 7 ∧
      (start .json (some ("settings.json", some reckless))).settings = loaded.settings) ∧
    load .json (some [0x7B]) = .error (.unreadable .truncated) ∧
      (start .json (some ("settings.json", some [0x7B]))).settings = default := by
  obtain ⟨-, text, file, -, -, unreadable, -⟩ := settings_always_usable .json
  refine ⟨?_, ?_, ?_⟩
  · obtain ⟨loaded, reads⟩ : ∃ loaded, ofText .json careless = .ok loaded := ⟨_, rfl⟩
    obtain ⟨-, ready, given, parsed, mended⟩ := text careless loaded reads
    obtain ⟨own, same, factor, limit, view⟩ : ∃ own, Reader.json.ofText careless = .ok own ∧
        own.zoomFactor = 1 ∧ own.stackLimit = 0 ∧ own.view = ⟨-5, 10, -3, 3⟩ :=
      ⟨_, rfl, rfl, rfl, rfl⟩
    obtain rfl : own = given := Except.ok.inj (same.symm.trans parsed)
    have plain : ¬ Magnifies own.zoomFactor := by
      rw [factor, ← zoomFactorUsable_iff]
      decide +kernel
    have shown : Visible own.view := by
      rw [view, ← viewUsable_iff]
      decide +kernel
    refine ⟨loaded, reads, ready, mended.zoomFactor.replaces plain,
      mended.stackLimit.replaces ?_, (mended.view.keeps shown).trans view⟩
    omega
  · obtain ⟨loaded, loads⟩ : ∃ loaded, load .json (some reckless) = .ok loaded := ⟨_, rfl⟩
    obtain ⟨-, ready, started, bytes, given, same, parsed, mended⟩ := file _ loaded loads
    cases same
    obtain ⟨own, read, rate, limit⟩ : ∃ own, Reader.json.ofBytes reckless = .ok own ∧
        own.panRate = -1 ∧ own.stackLimit = 7 := ⟨_, rfl, rfl, rfl⟩
    obtain rfl : own = given := Except.ok.inj (read.symm.trans parsed)
    have still : ¬ Moves own.panRate := by
      rw [rate, ← panRateUsable_iff]
      decide +kernel
    have room : 1 ≤ own.stackLimit := by
      rw [limit]
      decide
    exact ⟨loaded, loads, ready, mended.panRate.replaces still,
      (mended.stackLimit.keeps room).trans limit, started "settings.json"⟩
  · have fails : load .json (some [0x7B]) = .error (.unreadable .truncated) := rfl
    exact ⟨fails, unreadable _ _ fails "settings.json"⟩

end PolishPlotter.Settings
