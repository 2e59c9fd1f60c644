import PolishPlotter.Proofs.Controls.Keys
import PolishPlotter.Proofs.Session.Spelling

set_option autoImplicit false

namespace PolishPlotter.Session

open Controls Machine Screen

def carry (s : Session) (read : Except Refusal Command) : Except Refusal (Command × Reply) := do
  let command ← read
  .ok (command, ← s.apply command)

theorem carry_ok (s : Session) (command : Command) :
    s.carry (.ok command) = (s.apply command).map (command, ·) := rfl

/-- A step in place against its command, read first and then carried out. A step that is refused has
taken words, but has left the session alone. -/
inductive Mirrors (s : Session) (words : List String) (notices : List Notice) :
    Except Refusal (Command × Reply) → EStateM.Result Refusal Progress Event → Prop
  | done {command : Command} {reply : Reply} :
    Mirrors s words notices (.ok (command, reply))
      (.ok reply.event
        ⟨reply.session, words.drop command.argumentCount, notices ++ reply.notices⟩)
  | refused {refusal : Refusal} (left : List String) :
    Mirrors s words notices (.error refusal) (.error refusal ⟨s, left, notices⟩)

theorem Mirrors.quiet {s t : Session} {words : List String} {notices : List Notice} {command : Command}
    {event : Event} : Mirrors s words notices (.ok (command, ⟨t, event, []⟩))
      (.ok event ⟨t, words.drop command.argumentCount, notices⟩) := by
  have done := @Mirrors.done s words notices command ⟨t, event, []⟩
  rwa [List.append_nil] at done

namespace Step

variable {α β : Type} {s t : Session} {given words rest : List String} {notices : List Notice}
  {name usage : String}

section Bind

variable {m : Step α} {f : α → Step β} {a : α} {p q : Progress} {refusal : Refusal}

theorem bind_of_ok (done : m p = .ok a q) : (m >>= f) p = f a q := by
  simp only [bind, EStateM.bind, done]

theorem bind_of_error (refused : m p = .error refusal q) :
    (m >>= f) p = .error refusal q := by
  simp only [bind, EStateM.bind, refused]

end Bind

section Reading

-- A step that only takes words, as `parse` does.
def Reads (m : Step α) (parse : List String → Except Refusal (α × List String)) : Prop :=
  ∀ s words notices,
    match parse words with
    | .ok (a, rest) => m ⟨s, words, notices⟩ = .ok a ⟨s, rest, notices⟩
    | .error refusal => ∃ left, m ⟨s, words, notices⟩ = .error refusal ⟨s, left, notices⟩

theorem reads_word (usage : String) : Reads (word usage) (Command.word usage) := by
  intro s words notices
  cases words with
  | nil => exact ⟨[], rfl⟩
  | cons w rest => rfl

theorem reads_argument (usage : String) : Reads (argument usage) (Command.argument usage) := by
  intro s words notices
  cases words with
  | nil => exact ⟨[], rfl⟩
  | cons w rest =>
    have taken : argument usage ⟨s, w :: rest, notices⟩ = numberOf w ⟨s, rest, notices⟩ := rfl
    have parsed : Command.argument usage (w :: rest) =
        (Command.numberOf w).bind fun x => .ok (x, rest) := rfl
    rw [taken, parsed, numberOf, Command.numberOf]
    cases Decimal.read? w with
    | some x => rfl
    | none => exact ⟨rest, rfl⟩

variable {m : Step α} {parse : List String → Except Refusal (α × List String)}
  {make : α × List String → Except Refusal Command} {f : α → Step Event}

theorem Reads.mirrors (reads : Reads m parse)
    (later : ∀ a rest, parse words = .ok (a, rest) →
      Mirrors s given notices (s.carry (make (a, rest))) (f a ⟨s, rest, notices⟩)) :
    Mirrors s given notices (s.carry (parse words >>= make)) ((m >>= f) ⟨s, words, notices⟩) := by
  have own := reads s words notices
  cases parsed : parse words with
  | error refusal =>
    rw [parsed] at own
    obtain ⟨left, refused⟩ := own
    simp only [bind, EStateM.bind, refused]
    exact .refused left
  | ok pair =>
    obtain ⟨a, rest⟩ := pair
    rw [parsed] at own
    simp only [bind, EStateM.bind, own]
    exact later a rest parsed

end Reading

section Acting

theorem current_run : current ⟨s, words, notices⟩ = .ok s ⟨s, words, notices⟩ := rfl

theorem slider_of_ok {found : Slider} (given : s.slider name = .ok found) :
    slider name ⟨s, words, notices⟩ = .ok found ⟨s, words, notices⟩ := by
  rw [slider, bind_of_ok current_run]
  unfold Session.slider at given
  split at given
  · next here =>
    cases given
    rw [here]
    rfl
  · cases given

theorem slider_of_error {refusal : Refusal} (missing : s.slider name = .error refusal) :
    slider name ⟨s, words, notices⟩ = .error refusal ⟨s, words, notices⟩ := by
  rw [slider, bind_of_ok current_run]
  unfold Session.slider at missing
  split at missing
  · cases missing
  · next nowhere =>
    cases missing
    rw [nowhere]
    rfl

-- A slider is looked for after all the arguments, and before anything is done to it.
theorem slider_mirrors {command : Command} {act : Slider → Step Event} (after : Slider → Session)
    (applied : s.apply command = (s.slider name).map fun found => (after found).redraw)
    (acts : ∀ found, act found ⟨s, words, notices⟩ =
      .ok .redraw ⟨after found, given.drop command.argumentCount, notices⟩) :
    Mirrors s given notices (s.carry (.ok command)) ((slider name >>= act) ⟨s, words, notices⟩) := by
  rw [carry_ok, applied]
  cases looked : s.slider name with
  | error refusal =>
    rw [bind_of_error (slider_of_error looked)]
    exact .refused words
  | ok found =>
    rw [bind_of_ok (slider_of_ok looked), acts]
    exact .quiet

theorem press_run (s : Session) (key : Char) : press key ⟨s, words, notices⟩ =
    store ((s.keypad.key key).1.apply s.slots.current)
      ⟨{ s with keypad := (s.keypad.key key).2 }, words, notices⟩ := rfl

theorem press_eq (s : Session) (key : Char) :
    ∃ t, s.key key = .ok t ∧
      ∀ words notices, press key ⟨s, words, notices⟩ = .ok () ⟨t, words, notices⟩ := by
  obtain ⟨e, applied, -⟩ := (s.keypad.key_keyed key).apply s.slots.current
  refine ⟨_, by simp only [Session.key, applied]; rfl, fun words notices => ?_⟩
  rw [press_run, applied]
  rfl

theorem pressAll_eq {keys : List Char} {k : Keypad} {e : Equation}
    (typed : s.keypad.type s.slots.current keys = .ok (k, e)) :
    pressAll keys ⟨s, words, notices⟩ =
      .ok () ⟨{ s with keypad := k, slots := s.slots.setCurrent e }, words, notices⟩ := by
  induction keys generalizing s with
  | nil =>
    cases typed
    rw [Slots.setCurrent_current]
    rfl
  | cons key keys ih =>
    obtain ⟨f, applied, -⟩ := (s.keypad.key_keyed key).apply s.slots.current
    have pressed : press key ⟨s, words, notices⟩ = _ := press_run s key
    rw [applied] at pressed
    simp only [Keypad.type, applied] at typed
    have later := ih (s := { s with
      keypad := (s.keypad.key key).2
      slots := s.slots.setCurrent f }) (by rwa [Slots.current_setCurrent])
    rw [Slots.setCurrent_setCurrent] at later
    exact (bind_of_ok pressed).trans later

theorem type_eq (s : Session) (negative : Bool) (digits : List Char) :
    ∃ t, s.number negative digits = .ok t ∧ ∀ words notices,
      type negative digits ⟨s, words, notices⟩ = .ok () ⟨t, words, notices⟩ := by
  obtain ⟨k, e, typed, -⟩ := Keypad.empty.type_typed s.slots.current digits
  have pressed : ∀ words notices, pressAll digits ⟨s.endEntry, words, notices⟩ = _ :=
    fun words notices => pressAll_eq typed
  have started : ∀ words notices, type negative digits ⟨s, words, notices⟩ =
      (pressAll digits >>= fun _ => if negative then press Keypad.sign else pure ())
        ⟨s.endEntry, words, notices⟩ := fun words notices => rfl
  cases negative with
  | false =>
    refine ⟨{ s with keypad := k, slots := s.slots.setCurrent e }, by simp [number, typed], ?_⟩
    intro words notices
    rw [started, bind_of_ok (pressed words notices)]
    rfl
  | true =>
    obtain ⟨t, last, toggles⟩ :=
      press_eq { s with keypad := k, slots := s.slots.setCurrent e } Keypad.sign
    refine ⟨t, by simpa [number, typed] using last, fun words notices => ?_⟩
    rw [started, bind_of_ok (pressed words notices)]
    exact toggles words notices

end Acting

section Tokens

theorem both_mirrors {make : Float → Float → Command} {act : Float → Float → Session → Session}
    {finish : Step Event} (event : Session → Event) (count : ∀ dx dy, (make dx dy).argumentCount = 2)
    (applied : ∀ dx dy, s.apply (make dx dy) = .ok ⟨act dx dy s, event (act dx dy s), []⟩)
    (finishes : ∀ t rest, finish ⟨t, rest, notices⟩ = .ok (event t) ⟨t, rest, notices⟩) :
    Mirrors s words notices (s.carry (Command.pair make usage words))
      ((both usage act >>= fun _ => finish) ⟨s, words, notices⟩) := by
  simp only [both, bind_assoc]
  refine (reads_argument usage).mirrors fun dx rest first => ?_
  refine (reads_argument usage).mirrors fun dy left second => ?_
  obtain ⟨a, rfl, -⟩ := Command.argument_eq_ok.mp first
  obtain ⟨b, rfl, -⟩ := Command.argument_eq_ok.mp second
  have acted : (change (act dx dy) >>= fun _ => finish) ⟨s, left, notices⟩ =
    finish ⟨act dx dy s, left, notices⟩ := rfl
  rw [acted, finishes, carry_ok, applied]
  have mirrors : Mirrors s (a :: b :: left) notices _ _ :=
    @Mirrors.quiet s (act dx dy s) _ _ (make dx dy) (event (act dx dy s))
  rwa [count] at mirrors

theorem named_mirrors {make : String → Command} {act : Slider → Session → Session}
    (count : ∀ name, (make name).argumentCount = 1)
    (applied : ∀ name, s.apply (make name) =
      (s.slider name).map fun found => (act found s).redraw) :
    Mirrors s words notices (s.carry (Command.named make usage words))
      (redraw (named usage act) ⟨s, words, notices⟩) := by
  simp only [redraw, named, bind_assoc]
  refine (reads_word usage).mirrors fun name rest read => ?_
  obtain rfl := Command.word_eq_ok.mp read
  refine slider_mirrors (act · s) (applied name) fun found => ?_
  rw [count]
  rfl

theorem setting_mirrors : Mirrors s words notices (s.carry (Command.setting words))
    (redraw setting ⟨s, words, notices⟩) := by
  simp only [redraw, setting, bind_assoc]
  refine (reads_word _).mirrors fun name rest first => ?_
  refine (reads_argument _).mirrors fun value left second => ?_
  obtain rfl := Command.word_eq_ok.mp first
  obtain ⟨a, rfl, -⟩ := Command.argument_eq_ok.mp second
  exact slider_mirrors (fun found => { s with vars := found.set s.vars value }) rfl
    fun found => rfl

theorem ranging_mirrors : Mirrors s words notices (s.carry (Command.ranging words))
    (redraw ranging ⟨s, words, notices⟩) := by
  simp only [redraw, ranging, bind_assoc]
  refine (reads_word _).mirrors fun name rest first => ?_
  refine (reads_argument _).mirrors fun min more second => ?_
  refine (reads_argument _).mirrors fun max left third => ?_
  obtain rfl := Command.word_eq_ok.mp first
  obtain ⟨a, rfl, -⟩ := Command.argument_eq_ok.mp second
  obtain ⟨b, rfl, -⟩ := Command.argument_eq_ok.mp third
  exact slider_mirrors (fun found => { s with
    panel := s.panel.replace (found.setRange min max)
    vars := (found.setRange min max).set s.vars (found.value s.vars) }) rfl fun found => rfl

theorem tracing_mirrors : Mirrors s words notices (s.carry (Command.tracing words))
    ((tracing >>= fun t => pure (Event.trace t)) ⟨s, words, notices⟩) := by
  cases words with
  | nil => exact .quiet
  | cons w rest =>
    have parsed : Command.tracing (w :: rest) =
        (Command.numberOf w).bind fun x => .ok (.traceAt x) := rfl
    have taken : tracing ⟨s, w :: rest, notices⟩ =
        (numberOf w >>= fun x => return (← current).traceAt x) ⟨s, rest, notices⟩ := rfl
    rw [numberOf] at taken
    rw [parsed, Command.numberOf]
    cases read : Decimal.read? w with
    | some x =>
      rw [read] at taken
      rw [bind_of_ok taken]
      exact .quiet
    | none =>
      rw [read] at taken
      rw [bind_of_error taken]
      exact .refused rest

theorem press_mirrors {command : Command} (key : Char) (count : command.argumentCount = 0)
    (applied : s.apply command = (s.key key).map Session.redraw) :
    Mirrors s words notices (s.carry (.ok command)) (redraw (press key) ⟨s, words, notices⟩) := by
  obtain ⟨t, given, presses⟩ := press_eq s key
  rw [carry_ok, applied, given, redraw, bind_of_ok (presses words notices)]
  have mirrors : Mirrors s words notices _ _ := @Mirrors.quiet s t _ _ command .redraw
  rwa [count] at mirrors

theorem keyed_mirrors (key : String) : Mirrors s words notices (s.carry (Command.ofKey key words))
    (keyed key ⟨s, words, notices⟩) := by
  by_cases listed : key ∈ Command.keys
  · have each : ∀ key ∈ Command.keys, Mirrors s words notices (s.carry (Command.ofKey key words))
        (keyed key ⟨s, words, notices⟩) := by
      simp only [Command.keys, List.forall_mem_cons]
      refine ⟨.quiet, .quiet, press_mirrors _ rfl rfl, press_mirrors _ rfl rfl, .quiet, .quiet,
        .quiet, .done, .done, ?_, ?_, .quiet, setting_mirrors, ranging_mirrors, ?_, ?_, ?_, ?_,
        tracing_mirrors, .quiet, List.forall_mem_nil _⟩
      · exact both_mirrors (fun _ => .redraw) (fun _ _ => rfl) (fun _ _ => rfl) fun _ _ => rfl
      · exact both_mirrors (fun _ => .redraw) (fun _ _ => rfl) (fun _ _ => rfl) fun _ _ => rfl
      · exact named_mirrors (fun _ => rfl) fun _ => rfl
      · exact named_mirrors (fun _ => rfl) fun _ => rfl
      · exact named_mirrors (fun _ => rfl) fun _ => rfl
      · exact both_mirrors (fun t => .trace (t.traceCursor false)) (fun _ _ => rfl)
          (fun _ _ => rfl) fun _ _ => rfl
    exact each key listed
  · rw [Command.ofKey_of_unlisted listed]
    have refused : keyed key ⟨s, words, notices⟩ =
        .error (.unknownKey key) ⟨s, words, notices⟩ := by
      unfold keyed
      split <;> first | rfl | exact absurd (by decide) listed
    rw [refused]
    exact .refused words

theorem add_mirrors {i : Instruction} (proper : i.isNoop = false) :
    Mirrors s words notices (s.carry (.ok (.add i)))
      ((redraw do endEntry; add i) ⟨s, words, notices⟩) := by
  have pushed : s.slots.current.push i =
      .ok { s.slots.current with instructions := s.slots.current.instructions ++ [i] } := by
    simp [Equation.push, proper]
  have added : (do endEntry; add i : Step Unit) ⟨s, words, notices⟩ =
      store (s.slots.current.push i) ⟨s.endEntry, words, notices ++ [s.addNotice i]⟩ := rfl
  rw [pushed] at added
  have applied : s.apply (.add i) = (s.endEntry.add i).map fun t =>
      ⟨t, .redraw, [s.addNotice i]⟩ := rfl
  have current : s.endEntry.slots.current.push i = s.slots.current.push i := rfl
  rw [carry_ok, applied, Session.add, current, pushed, redraw, bind_of_ok added]
  exact .done

theorem type_mirrors (negative : Bool) (digits : List Char) :
    Mirrors s words notices (s.carry (.ok (.number negative digits)))
      (redraw (type negative digits) ⟨s, words, notices⟩) := by
  obtain ⟨t, given, types⟩ := type_eq s negative digits
  have applied : s.apply (.number negative digits) = (s.number negative digits).map Session.redraw :=
    rfl
  rw [carry_ok, applied, given, redraw, bind_of_ok (types words notices)]
  exact .quiet

theorem token_of_instruction {key : String} {i : Instruction}
    (given : Command.instruction? s.vars key = some i) :
    token key ⟨s, words, notices⟩ = (redraw do endEntry; add i) ⟨s, words, notices⟩ := by
  rw [token, bind_of_ok current_run, given]

theorem token_of_other {key : String} (other : Command.instruction? s.vars key = none) :
    token key ⟨s, words, notices⟩ =
      (if Command.isNumeral (Command.unsigned key.toList).2 then
        redraw (type (Command.unsigned key.toList).1 (Command.unsigned key.toList).2)
      else keyed key) ⟨s, words, notices⟩ := by
  rw [token, bind_of_ok current_run, other]

theorem token_mirrors (s : Session) (key : String) (words : List String) (notices : List Notice) :
    Mirrors s words notices (s.attempt key words) (token key ⟨s, words, notices⟩) := by
  have attempted : s.attempt key words = s.carry (Command.read s.vars key words) := rfl
  rw [attempted, Command.read]
  cases given : Command.instruction? s.vars key with
  | some i =>
    rw [token_of_instruction given]
    exact add_mirrors (Command.isNoop_of_instruction? given)
  | none =>
    rw [token_of_other given]
    cases numeral : Command.isNumeral (Command.unsigned key.toList).2 with
    | true =>
      simp only [Command.number?, numeral, if_true]
      exact type_mirrors _ _
    | false =>
      simp only [Command.number?, numeral, Bool.false_eq_true, if_false]
      exact keyed_mirrors key

end Tokens

-- Whatever a command is refused for, it has not touched the session by then.
theorem session_of_refused {p q : Progress} {key : String} {refusal : Refusal}
    (refused : token key p = .error refusal q) :
    q.session = p.session ∧ q.notices = p.notices := by
  have mirrors := token_mirrors p.session key p.words p.notices
  change Mirrors _ _ _ _ (token key p) at mirrors
  rw [refused] at mirrors
  generalize p.session.attempt key p.words = attempted at mirrors
  cases mirrors
  exact ⟨rfl, rfl⟩

theorem token_of_refused {key : String} {refusal : Refusal}
    (refused : s.attempt key words = .error refusal) (notices : List Notice) :
    ∃ left, token key ⟨s, words, notices⟩ = .error refusal ⟨s, left, notices⟩ := by
  have mirrors := token_mirrors s key words notices
  rw [refused] at mirrors
  generalize token key ⟨s, words, notices⟩ = result at mirrors
  cases mirrors with
  | refused left => exact ⟨left, rfl⟩

section Tokens

variable {fuel : Nat} {key : String} {event : Event} {refusal : Refusal} {p : Progress}

theorem next_run : next? ⟨s, key :: rest, notices⟩ = .ok (some key) ⟨s, rest, notices⟩ := rfl

theorem tokens_of_redraw (done : token key ⟨s, rest, notices⟩ = .ok .redraw p) :
    tokens (fuel + 1) ⟨s, key :: rest, notices⟩ = tokens fuel p := by
  simp only [tokens, bind_of_ok next_run, bind_of_ok done]

theorem tokens_of_end (done : token key ⟨s, rest, notices⟩ = .ok event p) (ends : event ≠ .redraw) :
    tokens (fuel + 1) ⟨s, key :: rest, notices⟩ = .ok event p := by
  simp only [tokens, bind_of_ok next_run, bind_of_ok done]
  cases event with
  | redraw => exact absurd rfl ends
  | message | trace | quit => rfl

theorem tokens_of_error (refused : token key ⟨s, rest, notices⟩ = .error refusal p) :
    tokens (fuel + 1) ⟨s, key :: rest, notices⟩ = .error refusal p := by
  simp only [tokens, bind_of_ok next_run, bind_of_error refused]

end Tokens

end Step

section Enter

variable {s : Session} {typed : List String} {notices : List Notice}

theorem enterWords_drop (s : Session) (taken : Nat) (typed : List String) :
    s.enterWords taken typed = s.enterWords 0 (typed.drop taken) := by
  induction taken generalizing typed with
  | zero => rfl
  | succ taken ih =>
    cases typed with
    | nil => rfl
    | cons word rest => exact ih rest

theorem reply_tokens {fuel : Nat} (enough : typed.length ≤ fuel) :
    reply (Step.tokens fuel ⟨s, typed, notices⟩) =
      let replied := s.enterWords 0 typed
      { replied with notices := notices ++ replied.notices } := by
  induction fuel generalizing s typed notices with
  | zero =>
    obtain rfl := List.eq_nil_of_length_eq_zero (Nat.le_zero.mp enough)
    simp [Step.tokens, enterWords, redraw]
    rfl
  | succ fuel ih =>
    cases typed with
    | nil =>
      simp [Step.tokens, enterWords, redraw]
      rfl
    | cons key rest =>
      have mirrors := Step.token_mirrors s key rest notices
      generalize ran : Step.token key ⟨s, rest, notices⟩ = result at mirrors
      rw [enterWords]
      generalize s.attempt key rest = attempted at mirrors
      cases mirrors with
      | refused left =>
        rw [Step.tokens_of_error ran]
        simp only [reply, refuse, List.append_nil]
      | @done command replied =>
        obtain ⟨t, event, own⟩ := replied
        cases event with
        | redraw =>
          have fewer : (rest.drop command.argumentCount).length ≤ fuel := by
            simp only [List.length_cons, List.length_drop] at enough ⊢
            omega
          rw [Step.tokens_of_redraw ran, ih fewer]
          simp only [enterWords_drop t command.argumentCount rest, List.append_assoc]
        | message | trace | quit =>
          rw [Step.tokens_of_end ran (by simp)]
          rfl

theorem enter_eq (s : Session) (line : String) : s.enter line = s.enterWords 0 (words line) :=
  @reply_tokens s (words line) [] (words line).length (Nat.le_refl _)

end Enter

end PolishPlotter.Session
