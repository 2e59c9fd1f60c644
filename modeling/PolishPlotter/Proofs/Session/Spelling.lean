import PolishPlotter.Proofs.Session.Command

set_option autoImplicit false

namespace PolishPlotter.Command

open Machine

inductive Spelled : Command → String → List String → Prop
  | quit : Spelled .quit "quit" []
  | exit : Spelled .quit "exit" []
  | backspace : Spelled .backspace "bs" []
  | negate : Spelled .negate "neg" []
  | clear : Spelled .clear "clear" []
  | up : Spelled .up "up" []
  | down : Spelled .down "down" []
  | zoomIn : Spelled .zoomIn "zoom+" []
  | zoomOut : Spelled .zoomOut "zoom-" []
  | pan {a b : String} {x y : Float} (readX : numberOf a = .ok x) (readY : numberOf b = .ok y) :
    Spelled (.pan x y) "pan" [a, b]
  | stick {a b : String} {x y : Float} (readX : numberOf a = .ok x) (readY : numberOf b = .ok y) :
    Spelled (.stick x y) "stick" [a, b]
  | resetView : Spelled .resetView "view" []
  | set (name : String) {a : String} {x : Float} (readX : numberOf a = .ok x) :
    Spelled (.set name x) "set" [name, a]
  | range (name : String) {a b : String} {x y : Float} (readX : numberOf a = .ok x)
    (readY : numberOf b = .ok y) : Spelled (.range name x y) "range" [name, a, b]
  | minimum (name : String) : Spelled (.minimum name) "min" [name]
  | maximum (name : String) : Spelled (.maximum name) "max" [name]
  | reset (name : String) : Spelled (.reset name) "reset" [name]
  | move {a b : String} {x y : Float} (readX : numberOf a = .ok x) (readY : numberOf b = .ok y) :
    Spelled (.move x y) "cursor" [a, b]
  | trace : Spelled .trace "trace" []
  | traceAt {a : String} {x : Float} (readX : numberOf a = .ok x) :
    Spelled (.traceAt x) "trace" [a]
  | snap : Spelled .snap "snap" []

variable {vars : Vars} {command : Command} {key name usage : String}
  {arguments words front back : List String} {x : Float} {i : Instruction}

theorem Spelled.length (spelled : Spelled command key arguments) :
    arguments.length = command.argumentCount := by
  cases spelled <;> rfl

theorem bind_eq_ok {ε α β : Type} {m : Except ε α} {f : α → Except ε β} {b : β} :
    m >>= f = .ok b ↔ ∃ a, m = .ok a ∧ f a = .ok b := by
  cases m <;> simp [bind, Except.bind]

theorem word_eq_ok : word usage words = .ok (name, back) ↔ words = name :: back := by
  cases words <;> simp [word]

theorem argument_eq_ok :
    argument usage words = .ok (x, back) ↔ ∃ a, words = a :: back ∧ numberOf a = .ok x := by
  simp only [argument, bind_eq_ok, Prod.exists, word_eq_ok, Except.ok.injEq, Prod.mk.injEq]
  constructor
  · rintro ⟨a, rest, rfl, y, read, rfl, rfl⟩
    exact ⟨a, rfl, read⟩
  · rintro ⟨a, rfl, read⟩
    exact ⟨a, back, rfl, x, read, rfl, rfl⟩

def ReadOff (key : String) (words : List String) (command : Command) : Prop :=
  ∃ args rest, words = args ++ rest ∧ Spelled command key args ∧ (command = .trace → rest = [])

theorem Spelled.readOff {a : String} {args : List String}
    (spelled : Spelled command key (a :: args)) (rest : List String) :
    ReadOff key (a :: args ++ rest) command := by
  refine ⟨a :: args, rest, rfl, spelled, ?_⟩
  rintro rfl
  cases spelled

theorem readOff_of_alone {alone : Command} (read : Except.ok (ε := Refusal) alone = .ok command)
    (spelled : Spelled alone key []) (other : alone ≠ .trace) : ReadOff key words command := by
  cases read
  exact ⟨[], words, rfl, spelled, fun same => absurd same other⟩

theorem setting_readOff (read : setting words = .ok command) : ReadOff "set" words command := by
  simp only [setting, bind_eq_ok, Prod.exists, word_eq_ok, argument_eq_ok] at read
  obtain ⟨name, _, rfl, x, rest, ⟨a, rfl, readX⟩, made⟩ := read
  cases made
  exact (Spelled.set name readX).readOff rest

theorem ranging_readOff (read : ranging words = .ok command) : ReadOff "range" words command := by
  simp only [ranging, bind_eq_ok, Prod.exists, word_eq_ok, argument_eq_ok] at read
  obtain ⟨name, _, rfl, x, _, ⟨a, rfl, readX⟩, y, rest, ⟨b, rfl, readY⟩, made⟩ := read
  cases made
  exact (Spelled.range name readX readY).readOff rest

theorem tracing_readOff (read : tracing words = .ok command) : ReadOff "trace" words command := by
  cases words with
  | nil =>
    cases read
    exact ⟨[], [], rfl, .trace, fun _ => rfl⟩
  | cons a rest =>
    simp only [tracing, bind_eq_ok] at read
    obtain ⟨x, readX, made⟩ := read
    cases made
    exact (Spelled.traceAt readX).readOff rest

theorem pair_readOff {make : Float → Float → Command}
    (spelled : ∀ {a b x y}, numberOf a = .ok x → numberOf b = .ok y →
      Spelled (make x y) key [a, b])
    (read : pair make usage words = .ok command) : ReadOff key words command := by
  simp only [pair, bind_eq_ok, Prod.exists, argument_eq_ok] at read
  obtain ⟨x, _, ⟨a, rfl, readX⟩, y, rest, ⟨b, rfl, readY⟩, made⟩ := read
  cases made
  exact (spelled readX readY).readOff rest

theorem named_readOff {make : String → Command}
    (spelled : ∀ name, Spelled (make name) key [name])
    (read : named make usage words = .ok command) : ReadOff key words command := by
  simp only [named, bind_eq_ok, Prod.exists, word_eq_ok] at read
  obtain ⟨name, rest, rfl, made⟩ := read
  cases made
  exact (spelled name).readOff rest

theorem ofKey_readOff (read : ofKey key words = .ok command) : ReadOff key words command := by
  unfold ofKey at read
  split at read
  · exact readOff_of_alone read .quit nofun
  · exact readOff_of_alone read .exit nofun
  · exact readOff_of_alone read .backspace nofun
  · exact readOff_of_alone read .negate nofun
  · exact readOff_of_alone read .clear nofun
  · exact readOff_of_alone read .up nofun
  · exact readOff_of_alone read .down nofun
  · exact readOff_of_alone read .zoomIn nofun
  · exact readOff_of_alone read .zoomOut nofun
  · exact pair_readOff .pan read
  · exact pair_readOff .stick read
  · exact readOff_of_alone read .resetView nofun
  · exact setting_readOff read
  · exact ranging_readOff read
  · exact named_readOff .minimum read
  · exact named_readOff .maximum read
  · exact named_readOff .reset read
  · exact pair_readOff .move read
  · exact tracing_readOff read
  · exact readOff_of_alone read .snap nofun
  · cases read

def keys : List String :=
  ["quit", "exit", "bs", "neg", "clear", "up", "down", "zoom+", "zoom-", "pan", "stick", "view",
    "set", "range", "min", "max", "reset", "cursor", "trace", "snap"]

theorem ofKey_of_unlisted (unlisted : key ∉ keys) (words : List String) :
    ofKey key words = .error (.unknownKey key) := by
  unfold ofKey
  split <;> first | rfl | exact absurd (by decide) unlisted

theorem Spelled.ofKey {args : List String} (spelled : Spelled command key args)
    (last : command = .trace → back = []) : Command.ofKey key (args ++ back) = .ok command := by
  cases spelled with
  | trace => rw [last rfl]; rfl
  | pan readX readY | stick readX readY | move readX readY | range _ readX readY =>
    simp [Command.ofKey, pair, ranging, argument, word, bind, Except.bind, readX, readY]
  | set _ readX | traceAt readX =>
    simp [Command.ofKey, setting, tracing, argument, word, bind, Except.bind, readX]
  | _ => rfl

theorem number?_eq_some (read : number? key = some command) :
    ∃ negative digits, command = .number negative digits := by
  simp only [number?] at read
  split at read
  · cases read
    exact ⟨_, _, rfl⟩
  · cases read

theorem instruction?_cases (read : instruction? vars key = some i) :
    (∃ op, i = .binary op) ∨ i = .dup ∨ (∃ f, Function.lookup? key = some f ∧ i = .apply f) ∨
      ∃ var, vars.lookup? key = some var ∧ i = .push var := by
  unfold instruction? at read
  split at read
  · next op _ => exact .inl ⟨op, (Option.some.inj read).symm⟩
  · split at read
    · exact .inr (.inl (Option.some.inj read).symm)
    · split at read
      · next f found => exact .inr (.inr (.inl ⟨f, found, (Option.some.inj read).symm⟩))
      · obtain ⟨var, found, same⟩ := Option.map_eq_some_iff.mp read
        exact .inr (.inr (.inr ⟨var, found, same.symm⟩))

theorem isNoop_of_instruction? (read : instruction? vars key = some i) : i.isNoop = false := by
  rcases instruction?_cases read with ⟨op, rfl⟩ | rfl | ⟨f, -, rfl⟩ | ⟨var, -, rfl⟩ <;> rfl

/-- What a word stands for: an instruction first, then a number, and only then a key word. -/
inductive Read (vars : Vars) (key : String) (words : List String) : Command → Prop
  | add {i : Instruction} (given : instruction? vars key = some i) : Read vars key words (.add i)
  | number {negative : Bool} {digits : List Char} (other : instruction? vars key = none)
    (given : number? key = some (.number negative digits)) :
    Read vars key words (.number negative digits)
  | keyed {command : Command} (other : instruction? vars key = none) (rest : number? key = none)
    (readOff : ReadOff key words command) : Read vars key words command

theorem read_eq_ok (reads : read vars key words = .ok command) : Read vars key words command := by
  unfold read at reads
  split at reads
  · next i given =>
    cases reads
    exact .add given
  · next other =>
    split at reads
    · next typed given =>
      cases reads
      obtain ⟨negative, digits, rfl⟩ := number?_eq_some given
      exact .number other given
    · next rest => exact .keyed other rest (ofKey_readOff reads)

theorem read_own (reads : read vars key words = .ok command) :
    ∃ args rest, words = args ++ rest ∧ args.length = command.argumentCount ∧
      ∀ more, (command = .trace → more = []) → read vars key (args ++ more) = .ok command := by
  cases read_eq_ok reads with
  | add given => exact ⟨[], words, rfl, rfl, fun more _ => by simp only [read, given]⟩
  | number other given =>
    exact ⟨[], words, rfl, rfl, fun more _ => by simp only [read, other, given]⟩
  | keyed other rest readOff =>
    obtain ⟨args, later, same, spelled, -⟩ := readOff
    refine ⟨args, later, same, spelled.length, ?_⟩
    intro more last
    simp only [read, other, rest]
    exact spelled.ofKey last

theorem instruction?_of_read {i : Instruction} (reads : read vars key words = .ok (.add i)) :
    instruction? vars key = some i := by
  cases read_eq_ok reads with
  | add given => exact given
  | keyed other rest readOff =>
    obtain ⟨args, later, -, spelled, -⟩ := readOff
    cases spelled

theorem argumentCount_le (reads : read vars key words = .ok command) :
    command.argumentCount ≤ words.length := by
  obtain ⟨args, rest, rfl, size, -⟩ := read_own reads
  rw [← size, List.length_append]
  exact Nat.le_add_right ..

theorem read_append (reads : read vars key words = .ok command) (other : command ≠ .trace)
    (more : List String) : read vars key (words ++ more) = .ok command := by
  obtain ⟨args, rest, rfl, -, alike⟩ := read_own reads
  rw [List.append_assoc]
  exact alike (rest ++ more) fun same => absurd same other

theorem read_front (reads : read vars key (front ++ back) = .ok command)
    (other : command ≠ .trace) (enough : command.argumentCount ≤ front.length) :
    read vars key front = .ok command := by
  obtain ⟨args, rest, split, size, alike⟩ := read_own reads
  have inside : args <+: front :=
    List.prefix_of_prefix_length_le ⟨rest, split.symm⟩ (List.prefix_append front back) (by omega)
  obtain ⟨middle, rfl⟩ := inside
  exact alike middle fun same => absurd same other

end PolishPlotter.Command
