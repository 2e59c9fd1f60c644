import PolishPlotter.Proofs.Session.Effects
import PolishPlotter.Proofs.Session.Line
import PolishPlotter.Proofs.Session.Reachable

set_option autoImplicit false

namespace PolishPlotter

open Controls Machine Screen

inductive Group
  | editing | viewing | sliding | pointing
  deriving DecidableEq

namespace Group

def keyed? : String → Option Group
  | "bs" | "neg" | "clear" | "up" | "down" => some .editing
  | "zoom+" | "zoom-" | "pan" | "stick" | "view" => some .viewing
  | "set" | "range" | "min" | "max" | "reset" => some .sliding
  | "cursor" | "trace" | "snap" => some .pointing
  | _ => none

def of? (vars : Vars) (word : String) : Option Group :=
  if (Command.instruction? vars word).isSome || (Command.number? word).isSome then some .editing
  else keyed? word

/-- Whether the words are commands of the group. Their arguments may be anything, and so may the
words after a command that cannot be read, since that ends the line. The first `taken` words belong to
a command before. -/
def spells (g : Group) (vars : Vars) : Nat → List String → Bool
  | _, [] => true
  | taken + 1, _ :: rest => spells g vars taken rest
  | 0, key :: rest =>
    of? vars key = some g &&
      match Command.read vars key rest with
      | .ok command => spells g vars command.argumentCount rest
      | .error _ => true

/-- The session `s` with the part of the group as it is in `t`. -/
def graft (g : Group) (s t : Session) : Session :=
  match g with
  | .editing => { s with slots := t.slots, keypad := t.keypad }
  | .viewing => { s with view := t.view }
  | .sliding => { s with vars := t.vars, panel := t.panel }
  | .pointing => { s with cursor := t.cursor }

variable {g h : Group} (s t u : Session)

@[simp] theorem graft_self : g.graft s s = s := by
  cases g <;> rfl

theorem names_graft (same : s.vars.names = t.vars.names) :
    (g.graft s t).vars.names = t.vars.names := by
  cases g with
  | sliding => rfl
  | editing | viewing | pointing => exact same

-- The parts of two groups have no field in common.
theorem graft_of_graft (apart : g ≠ h) : h.graft (g.graft s t) s = g.graft s t := by
  cases g <;> cases h <;> first | rfl | exact absurd rfl apart

theorem graft_comm (apart : g ≠ h) :
    h.graft (g.graft s t) u = g.graft (h.graft s u) t := by
  cases g <;> cases h <;> first | rfl | exact absurd rfl apart

end Group

namespace Command

def group? : Command → Option Group
  | .add _ | .number _ _ | .backspace | .negate | .clear | .up | .down => some .editing
  | .zoomIn | .zoomOut | .pan _ _ | .stick _ _ | .resetView => some .viewing
  | .set _ _ | .range _ _ _ | .minimum _ | .maximum _ | .reset _ => some .sliding
  | .move _ _ | .trace | .traceAt _ | .snap => some .pointing
  | .quit => none

variable {vars other : Vars} {key : String} {words : List String} {command : Command} {g : Group}

theorem instruction?_congr (same : other.names = vars.names) (word : String) :
    instruction? other word = instruction? vars word := by
  simp only [instruction?, Vars.lookup?, same]

theorem read_congr (same : other.names = vars.names) (key : String) (words : List String) :
    read other key words = read vars key words := by
  simp only [read, instruction?_congr same]

theorem Spelled.group (spelled : Spelled command key words) (listed : Group.keyed? key = some g) :
    command.group? = some g := by
  cases spelled <;> cases listed <;> rfl

theorem group_of_read (listed : Group.of? vars key = some g)
    (reads : read vars key words = .ok command) : command.group? = some g := by
  cases read_eq_ok reads with
  | add given =>
    simp only [Group.of?, given] at listed
    cases listed
    rfl
  | number other given =>
    simp only [Group.of?, given, Option.isSome_some, Bool.or_true] at listed
    cases listed
    rfl
  | keyed other rest readOff =>
    simp only [Group.of?, other, rest] at listed
    obtain ⟨args, later, -, spelled, -⟩ := readOff
    exact spelled.group listed

end Command

namespace Group

variable {g : Group} {vars other : Vars} {key : String} {words : List String} {command : Command}

theorem spells_congr (same : other.names = vars.names) (g : Group) (taken : Nat)
    (words : List String) : g.spells other taken words = g.spells vars taken words := by
  have alike (word : String) : of? other word = of? vars word := by
    simp only [of?, Command.instruction?_congr same]
  induction words generalizing taken with
  | nil => cases taken <;> rfl
  | cons word rest ih =>
    cases taken with
    | succ taken => exact ih taken
    | zero => simp only [spells, alike, Command.read_congr same, ih]

theorem of?_of_spells (spelled : g.spells vars 0 (key :: words) = true) :
    of? vars key = some g := by
  simp only [spells, Bool.and_eq_true, decide_eq_true_eq] at spelled
  exact spelled.1

theorem spells_rest (spelled : g.spells vars 0 (key :: words) = true)
    (reads : Command.read vars key words = .ok command) :
    g.spells vars command.argumentCount words = true := by
  simp only [spells, reads, Bool.and_eq_true] at spelled
  exact spelled.2

end Group

namespace Session

variable {g h : Group} {s t u : Session} {command : Command} {reply other : Reply}
  {refusal : Refusal} {key : String} {rest : List String} {taken : Nat}

/-- How a session replies to the words that got `reply` from another one, if the two have the part of
the group in common and `t` has the rest. A trace shows the rest too. -/
structure Grafted (g : Group) (t : Session) (reply other : Reply) : Prop where
  session : other.session = g.graft t reply.session
  notices : other.notices = reply.notices
  event : g ≠ .pointing → other.event = reply.event
  redraw : other.event = .redraw ↔ reply.event = .redraw

inductive Grafts (g : Group) (t : Session) : Except Refusal Reply → Except Refusal Reply → Prop
  | refused (refusal : Refusal) : Grafts g t (.error refusal) (.error refusal)
  | done {reply other : Reply} (grafted : Grafted g t reply other) : Grafts g t (.ok reply) (.ok other)

theorem Grafted.same (g : Group) (t s : Session) (event : Event) (notices : List Notice) :
    Grafted g t ⟨s, event, notices⟩ ⟨g.graft t s, event, notices⟩ :=
  ⟨rfl, rfl, fun _ => rfl, Iff.rfl⟩

theorem Grafts.same (g : Group) (t s : Session) (event : Event) (notices : List Notice) :
    Grafts g t (.ok ⟨s, event, notices⟩) (.ok ⟨g.graft t s, event, notices⟩) :=
  .done (.same g t s event notices)

section Parts

variable (s t : Session)

theorem key_graft (c : Char) :
    (Group.editing.graft t s).key c = (s.key c).map (Group.editing.graft t) := by
  simp only [key, Group.graft]
  cases (s.keypad.key c).1.apply s.slots.current <;> rfl

theorem number_graft (negative : Bool) (digits : List Char) :
    (Group.editing.graft t s).number negative digits =
      (s.number negative digits).map (Group.editing.graft t) := by
  simp only [number, Group.graft]
  cases Keypad.empty.type s.slots.current digits with
  | error e => rfl
  | ok typed =>
    obtain ⟨k, e⟩ := typed
    cases negative with
    | false => rfl
    | true => exact key_graft { s with keypad := k, slots := s.slots.setCurrent e } t Keypad.sign

theorem grafts_redraw (result : Except Refusal Session) :
    Grafts g t (do .ok (← result).redraw) (do .ok (← result.map (g.graft t)).redraw) := by
  cases result with
  | error refusal => exact .refused refusal
  | ok u => exact .same g t u .redraw []

theorem apply_editing (own : command.group? = some .editing) :
    Grafts .editing t (s.apply command) ((Group.editing.graft t s).apply command) := by
  cases command with
  | add i =>
    simp only [apply, add, endEntry, Group.graft]
    cases s.slots.current.push i with
    | error e => exact .refused _
    | ok e => exact .same .editing t _ .redraw _
  | number negative digits =>
    simp only [apply, number_graft]
    exact grafts_redraw t _
  | backspace | negate =>
    simp only [apply, key_graft]
    exact grafts_redraw t _
  | clear | up | down => exact .same .editing t _ .redraw []
  | _ => cases own

theorem apply_viewing (own : command.group? = some .viewing) (same : t.settings = s.settings) :
    Grafts .viewing t (s.apply command) ((Group.viewing.graft t s).apply command) := by
  have zoomed (result : ZoomResult Float) :
      Grafts .viewing t (.ok (s.zoom result)) (.ok ((Group.viewing.graft t s).zoom result)) :=
    .same .viewing t _ .redraw _
  have factor : (Group.viewing.graft t s).settings.zoomFactor = s.settings.zoomFactor :=
    congrArg Settings.zoomFactor same
  have rate : (Group.viewing.graft t s).settings.panRate = s.settings.panRate :=
    congrArg Settings.panRate same
  have home : (Group.viewing.graft t s).settings.view = s.settings.view :=
    congrArg Settings.view same
  cases command with
  | zoomIn | zoomOut =>
    simp only [apply, factor]
    exact zoomed _
  | pan | stick | resetView =>
    simp only [apply, rate, home]
    exact .same .viewing t _ .redraw []
  | _ => cases own

theorem apply_sliding (own : command.group? = some .sliding) :
    Grafts .sliding t (s.apply command) ((Group.sliding.graft t s).apply command) := by
  have found (name : String) : (Group.sliding.graft t s).slider name = s.slider name := rfl
  cases command with
  | set name | range name | minimum name | maximum name | reset name =>
    simp only [apply, found]
    cases s.slider name with
    | error refusal => exact .refused refusal
    | ok slider => exact .same .sliding t _ .redraw []
  | _ => cases own

theorem apply_pointing (own : command.group? = some .pointing) :
    Grafts .pointing t (s.apply command) ((Group.pointing.graft t s).apply command) := by
  cases command with
  | move | trace | traceAt | snap =>
    exact .done ⟨rfl, rfl, fun other => absurd rfl other, by simp⟩
  | _ => cases own

end Parts

theorem apply_graft (own : command.group? = some g) (same : t.settings = s.settings) :
    Grafts g t (s.apply command) ((g.graft t s).apply command) := by
  cases g with
  | editing => exact apply_editing s t own
  | viewing => exact apply_viewing s t own same
  | sliding => exact apply_sliding s t own
  | pointing => exact apply_pointing s t own

structure Fixed (s t : Session) : Prop where
  settings : t.settings = s.settings
  vars : t.vars.names = s.vars.names
  sliders : t.panel.sliders.map (·.var.name) = s.panel.sliders.map (·.var.name)

theorem replace_names (panel : Panel) (changed : Slider) :
    (panel.replace changed).sliders.map (·.var.name) = panel.sliders.map (·.var.name) := by
  simp only [Panel.replace, List.map_map]
  refine List.map_congr_left fun t _ => ?_
  simp only [Function.comp]
  split
  · next named => exact named.symm
  · rfl

theorem Fixed.apply (reads : Command.read s.vars key rest = .ok command)
    (done : s.apply command = .ok reply) : Fixed s reply.session := by
  have applied := s.apply_applied (Command.isProper_of_read reads)
  rw [done] at applied
  cases applied with
  | edited | viewed | ended => exact ⟨rfl, rfl, rfl⟩
  | slid _ _ slid =>
    refine ⟨rfl, slid.names, ?_⟩
    rcases slid.panel with rfl | ⟨changed, -, rfl⟩
    · rfl
    · exact replace_names s.panel changed

theorem Fixed.refl (s : Session) : Fixed s s := ⟨rfl, rfl, rfl⟩

theorem Fixed.symm (fixed : Fixed s t) : Fixed t s :=
  ⟨fixed.settings.symm, fixed.vars.symm, fixed.sliders.symm⟩

theorem Fixed.trans (first : Fixed s t) (second : Fixed t u) : Fixed s u :=
  ⟨second.settings.trans first.settings, second.vars.trans first.vars,
    second.sliders.trans first.sliders⟩

theorem enterWords_fixed (s : Session) (taken : Nat) (words : List String) :
    Fixed s (s.enterWords taken words).session := by
  have kept : Kept (Fixed s) := fun _ _ _ _ _ fixed reads done => fixed.trans (.apply reads done)
  exact kept.enterWords (.refl s) taken words

theorem attempt_graft (listed : Group.of? s.vars key = some g) (settings : t.settings = s.settings)
    (names : t.vars.names = s.vars.names) (rest : List String) :
    (∃ refusal, s.attempt key rest = .error refusal ∧
      (g.graft t s).attempt key rest = .error refusal) ∨
    ∃ command reply other, s.attempt key rest = .ok (command, reply) ∧
      (g.graft t s).attempt key rest = .ok (command, other) ∧ Grafted g t reply other := by
  refine attempt_alike (Command.read_congr (g.names_graft t s names) key rest) ?_
  intro command reads
  have grafts := apply_graft (Command.group_of_read listed reads) settings
  generalize s.apply command = result at grafts
  generalize (g.graft t s).apply command = changed at grafts
  cases grafts with
  | refused refusal => exact .inl ⟨refusal, rfl, rfl⟩
  | @done reply other alike => exact .inr ⟨reply, other, rfl, rfl, alike⟩

theorem answer_graft (listed : Group.of? s.vars key = some g) (settings : t.settings = s.settings)
    (names : t.vars.names = s.vars.names) (rest : List String) :
    Grafted g t (s.answer key rest) ((g.graft t s).answer key rest) := by
  exact answer_alike (attempt_graft listed settings names rest) fun _ => .same g t s _ []

theorem enterWords_graft {words : List String}
    (spelled : g.spells s.vars taken words = true)
    (settings : t.settings = s.settings) (names : t.vars.names = s.vars.names) :
    Grafted g t (s.enterWords taken words) ((g.graft t s).enterWords taken words) := by
  induction s, taken, words using line_induction with
  | nil s taken =>
    rw [enterWords_nil, enterWords_nil]
    exact .same g t s .redraw []
  | skip s taken word rest ih => exact ih spelled settings names
  | last s key rest ended =>
    have alike := answer_graft (Group.of?_of_spells spelled) settings names rest
    rw [enterWords_last ended, enterWords_last (mt alike.redraw.mp ended)]
    exact alike
  | next s key rest command u notices attempted ih =>
    rcases attempt_graft (Group.of?_of_spells spelled) settings names rest with
      ⟨_, refused, -⟩ | ⟨_, _, ⟨v, event, others⟩, done, grafted, alike⟩
    · cases attempted.symm.trans refused
    · cases attempted.symm.trans done
      obtain rfl : event = .redraw := alike.redraw.mpr rfl
      obtain rfl : v = g.graft t u := alike.session
      obtain rfl : others = notices := alike.notices
      have reads := (attempt_eq_ok.mp attempted).1
      have fixed : Fixed s u := .apply reads (attempt_eq_ok.mp attempted).2
      have later := ih (by
        rw [Group.spells_congr fixed.vars]
        exact Group.spells_rest spelled reads) (settings.trans fixed.settings.symm)
        (names.trans fixed.vars.symm)
      rw [enterWords_next attempted, enterWords_next grafted]
      exact ⟨later.session, congrArg (others ++ ·) later.notices, later.event, later.redraw⟩

section Lines

variable {front back line : String}

theorem enter_fixed (s : Session) (line : String) : Fixed s (s.enter line).session := by
  rw [enter_eq]
  exact s.enterWords_fixed 0 (words line)

theorem enter_graft (spelled : g.spells s.vars 0 (words line) = true)
    (settings : t.settings = s.settings) (names : t.vars.names = s.vars.names) :
    Grafted g t (s.enter line) ((g.graft t s).enter line) := by
  rw [enter_eq, enter_eq]
  exact enterWords_graft spelled settings names

theorem enter_own (spelled : g.spells s.vars 0 (words line) = true) :
    (s.enter line).session = g.graft s (s.enter line).session := by
  have alike := enter_graft spelled (t := s) rfl rfl
  rw [Group.graft_self] at alike
  exact alike.session

-- To a line of another group, the line before it has changed nothing that it depends on.
theorem enter_after (apart : g ≠ h) (first : g.spells s.vars 0 (words front) = true)
    (second : h.spells s.vars 0 (words back) = true) :
    Grafted h (s.enter front).session (s.enter back) ((s.enter front).session.enter back) := by
  have own : h.graft (s.enter front).session s = (s.enter front).session := by
    rw [enter_own first]
    exact Group.graft_of_graft s _ apart
  have fixed := s.enter_fixed front
  have alike := enter_graft second fixed.settings fixed.vars
  rw [own] at alike
  exact alike

end Lines

/-- A line whose commands are of one group changes that part of the session only, whatever its
arguments are and however it ends, and what becomes of that part depends on no other one. So two
lines of different groups leave the same session in either order; and in either order each has the
same event, unless it is one with the cursor, which shows the rest of the session. -/
theorem groups_commute :
    (∀ (g : Group) (s : Session) (line : String), g.spells s.vars 0 (words line) = true →
      (s.enter line).session = g.graft s (s.enter line).session ∧
        Fixed s (s.enter line).session ∧
        ∀ t : Session, t.settings = s.settings → t.vars.names = s.vars.names →
          ((g.graft t s).enter line).session = g.graft t (s.enter line).session ∧
            (g ≠ .pointing → ((g.graft t s).enter line).event = (s.enter line).event)) ∧
    ∀ (g h : Group) (s : Session) (front back : String), g ≠ h →
      g.spells s.vars 0 (words front) = true → h.spells s.vars 0 (words back) = true →
      ((s.enter front).session.enter back).session =
          ((s.enter back).session.enter front).session ∧
        (g ≠ .pointing → ((s.enter back).session.enter front).event = (s.enter front).event) ∧
        (h ≠ .pointing → ((s.enter front).session.enter back).event = (s.enter back).event) := by
  constructor
  · intro g s line spelled
    refine ⟨enter_own spelled, s.enter_fixed line, ?_⟩
    intro t settings names
    have alike := enter_graft spelled settings names
    exact ⟨alike.session, alike.event⟩
  · intro g h s front back apart first second
    have backLast := enter_after apart first second
    have frontLast := enter_after apart.symm second first
    refine ⟨?_, frontLast.event, backLast.event⟩
    calc ((s.enter front).session.enter back).session
        = h.graft (s.enter front).session (s.enter back).session := backLast.session
      _ = h.graft (g.graft s (s.enter front).session) (s.enter back).session := by
          rw [← enter_own first]
      _ = g.graft (h.graft s (s.enter back).session) (s.enter front).session :=
          Group.graft_comm s _ _ apart
      _ = g.graft (s.enter back).session (s.enter front).session := by rw [← enter_own second]
      _ = ((s.enter back).session.enter front).session := frontLast.session.symm

-- The second line ends with an error, after it has changed a range.
theorem typing_commutes_with_sliding :
    (((new .default).enter "3 a * bs neg").session.enter "range a 2 3 set b ten").session =
        (((new .default).enter "range a 2 3 set b ten").session.enter "3 a * bs neg").session ∧
      (((new .default).enter "3 a * bs neg").session.enter "range a 2 3 set b ten").event =
        ((new .default).enter "range a 2 3 set b ten").event := by
  obtain ⟨sessions, -, events⟩ := groups_commute.2 .editing .sliding (new .default) "3 a * bs neg"
    "range a 2 3 set b ten" (by decide) (by decide +kernel) (by decide +kernel)
  exact ⟨sessions, events (by decide)⟩

end Session

end PolishPlotter
