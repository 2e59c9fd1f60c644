import PolishPlotter.Proofs.Session.Token

set_option autoImplicit false

namespace PolishPlotter

open Machine

namespace Reply

def after (reply : Reply) (notices : List Notice) : Reply :=
  { reply with notices := notices ++ reply.notices }

variable (reply : Reply) (notices : List Notice)

@[simp] theorem session_after : (reply.after notices).session = reply.session := rfl

@[simp] theorem event_after : (reply.after notices).event = reply.event := rfl

@[simp] theorem notices_after :
    (reply.after notices).notices = notices ++ reply.notices := rfl

end Reply

namespace Session

def answer (s : Session) (key : String) (words : List String) : Reply :=
  match s.attempt key words with
  | .ok (_, reply) => reply
  | .error refusal => s.refuse refusal

def executed (s : Session) : Nat → List String → List Command
  | _, [] => []
  | taken + 1, _ :: rest => executed s taken rest
  | 0, key :: rest =>
    match s.attempt key rest with
    | .error _ => []
    | .ok (command, ⟨t, .redraw, _⟩) => command :: executed t command.argumentCount rest
    | .ok (command, _) => [command]

variable {s t : Session} {key : String} {words rest front back : List String} {command : Command}
  {reply : Reply} {refusal : Refusal} {notices : List Notice} {taken : Nat}

theorem attempt_eq_ok :
    s.attempt key words = .ok (command, reply) ↔
      Command.read s.vars key words = .ok command ∧ s.apply command = .ok reply := by
  simp only [attempt, Command.bind_eq_ok, Except.ok.injEq, Prod.mk.injEq]
  constructor
  · rintro ⟨c, reads, r, applied, rfl, rfl⟩
    exact ⟨reads, applied⟩
  · rintro ⟨reads, applied⟩
    exact ⟨command, reads, reply, applied, rfl, rfl⟩

theorem attempt_eq_error :
    s.attempt key words = .error refusal ↔
      Command.read s.vars key words = .error refusal ∨
      ∃ command, Command.read s.vars key words = .ok command ∧
        s.apply command = .error refusal := by
  simp only [attempt, bind, Except.bind]
  cases Command.read s.vars key words with
  | error r => simp
  | ok c => cases applied : s.apply c <;> simp [applied]

theorem attempt_alike {R : Reply → Reply → Prop} {words : List String}
    (same : Command.read t.vars key words = Command.read s.vars key words)
    (alike : ∀ command, Command.read s.vars key words = .ok command →
      (∃ refusal, s.apply command = .error refusal ∧ t.apply command = .error refusal) ∨
      ∃ reply other, s.apply command = .ok reply ∧ t.apply command = .ok other ∧ R reply other) :
    (∃ refusal, s.attempt key words = .error refusal ∧ t.attempt key words = .error refusal) ∨
    ∃ command reply other, s.attempt key words = .ok (command, reply) ∧
      t.attempt key words = .ok (command, other) ∧ R reply other := by
  cases reads : Command.read s.vars key words with
  | error refusal =>
    rw [reads] at same
    exact .inl ⟨refusal, attempt_eq_error.mpr (.inl reads), attempt_eq_error.mpr (.inl same)⟩
  | ok command =>
    rw [reads] at same
    rcases alike command reads with
      ⟨refusal, refused, otherRefused⟩ | ⟨reply, other, done, otherDone, related⟩
    · exact .inl ⟨refusal, attempt_eq_error.mpr (.inr ⟨command, reads, refused⟩),
        attempt_eq_error.mpr (.inr ⟨command, same, otherRefused⟩)⟩
    · exact .inr ⟨command, reply, other, attempt_eq_ok.mpr ⟨reads, done⟩,
        attempt_eq_ok.mpr ⟨same, otherDone⟩, related⟩

theorem answer_alike {R : Reply → Reply → Prop} {words : List String}
    (alike : (∃ refusal, s.attempt key words = .error refusal ∧
        t.attempt key words = .error refusal) ∨
      ∃ command reply other, s.attempt key words = .ok (command, reply) ∧
        t.attempt key words = .ok (command, other) ∧ R reply other)
    (refused : ∀ refusal, R (s.refuse refusal) (t.refuse refusal)) :
    R (s.answer key words) (t.answer key words) := by
  rcases alike with ⟨refusal, first, second⟩ | ⟨command, reply, other, first, second, related⟩
  · simpa only [answer, first, second] using refused refusal
  · simpa only [answer, first, second] using related

section Equations

theorem enterWords_nil (s : Session) (taken : Nat) : s.enterWords taken [] = s.redraw := by
  cases taken <;> rfl

theorem executed_of_taken (s : Session) (enough : words.length ≤ taken) :
    s.executed taken words = [] := by
  induction words generalizing taken with
  | nil => cases taken <;> rfl
  | cons word rest ih =>
    obtain ⟨fewer, rfl⟩ : ∃ fewer, taken = fewer + 1 := Nat.exists_eq_add_one.mpr (by
      simp only [List.length_cons] at enough
      omega)
    exact ih (by simpa using enough)

theorem enterWords_next (attempted : s.attempt key rest = .ok (command, ⟨t, .redraw, notices⟩)) :
    s.enterWords 0 (key :: rest) = (t.enterWords command.argumentCount rest).after notices := by
  simp only [enterWords, attempted, Reply.after]

theorem executed_next (attempted : s.attempt key rest = .ok (command, ⟨t, .redraw, notices⟩)) :
    s.executed 0 (key :: rest) = command :: t.executed command.argumentCount rest := by
  simp only [executed, attempted]

theorem executed_last (attempted : s.attempt key rest = .ok (command, reply))
    (ended : reply.event ≠ .redraw) : s.executed 0 (key :: rest) = [command] := by
  obtain ⟨t, event, notices⟩ := reply
  cases event with
  | redraw => exact absurd rfl ended
  | message | trace | quit => simp only [executed, attempted]

theorem enterWords_last (ended : (s.answer key rest).event ≠ .redraw) :
    s.enterWords 0 (key :: rest) = s.answer key rest := by
  cases attempted : s.attempt key rest with
  | error refusal => simp only [enterWords, answer, attempted]
  | ok pair =>
    obtain ⟨command, t, event, notices⟩ := pair
    cases event with
    | redraw => simp [answer, attempted] at ended
    | message | trace | quit => simp only [enterWords, answer, attempted]

theorem last_cases (ended : (s.answer key rest).event ≠ .redraw) :
    (∃ refusal, s.attempt key rest = .error refusal ∧ s.answer key rest = s.refuse refusal ∧
      s.executed 0 (key :: rest) = []) ∨
    ∃ command, s.attempt key rest = .ok (command, s.answer key rest) ∧
      s.executed 0 (key :: rest) = [command] := by
  cases attempted : s.attempt key rest with
  | error refusal =>
    exact .inl ⟨refusal, rfl, by simp only [answer, attempted], by simp only [executed, attempted]⟩
  | ok pair =>
    obtain ⟨command, reply⟩ := pair
    have replied : s.answer key rest = reply := by simp only [answer, attempted]
    rw [replied] at ended ⊢
    exact .inr ⟨command, rfl, executed_last attempted ended⟩

end Equations

/-- A property of lines holds of all of them if it holds of the empty one, and does not depend on
the words already taken, nor on the commands before the last one. -/
@[elab_as_elim]
theorem line_induction {P : Session → Nat → List String → Prop}
    (nil : ∀ s taken, P s taken [])
    (skip : ∀ s taken word rest, P s taken rest → P s (taken + 1) (word :: rest))
    (last : ∀ s key rest, (s.answer key rest).event ≠ .redraw → P s 0 (key :: rest))
    (next : ∀ s key rest command t notices,
      s.attempt key rest = .ok (command, ⟨t, .redraw, notices⟩) →
        P t command.argumentCount rest → P s 0 (key :: rest))
    (s : Session) (taken : Nat) (words : List String) : P s taken words := by
  induction s, taken, words using executed.induct with
  | case1 s taken => exact nil s taken
  | case2 s taken word rest ih => exact skip s taken word rest ih
  | case3 s key rest refusal attempted =>
    refine last s key rest ?_
    simp [answer, attempted, refuse]
  | case4 s key rest command t notices attempted ih =>
    exact next s key rest command t notices attempted ih
  | case5 s key rest command reply ended attempted =>
    obtain ⟨t, event, notices⟩ := reply
    refine last s key rest ?_
    rintro redrawn
    simp only [answer, attempted] at redrawn
    exact ended t notices (by rw [redrawn])

theorem enterWords_keeps {P : Session → Prop} {Q : Command → Prop}
    (kept : ∀ ⦃s : Session⦄ ⦃key : String⦄ ⦃rest : List String⦄ ⦃command : Command⦄ ⦃reply : Reply⦄,
      P s → Q command → Command.read s.vars key rest = .ok command →
        s.apply command = .ok reply → P reply.session)
    (holds : P s) (only : ∀ command ∈ s.executed taken words, Q command) :
    P (s.enterWords taken words).session := by
  induction s, taken, words using line_induction with
  | nil s taken =>
    rw [enterWords_nil]
    exact holds
  | skip s taken word rest ih => exact ih holds only
  | last s key rest ended =>
    rw [enterWords_last ended]
    rcases last_cases ended with ⟨refusal, -, answered, -⟩ | ⟨command, attempted, alone⟩
    · rw [answered]
      exact holds
    · rw [alone] at only
      obtain ⟨reads, done⟩ := attempt_eq_ok.mp attempted
      exact kept holds (only command List.mem_cons_self) reads done
  | next s key rest command t notices attempted ih =>
    obtain ⟨reads, done⟩ := attempt_eq_ok.mp attempted
    rw [executed_next attempted] at only
    rw [enterWords_next attempted]
    exact ih (kept holds (only command List.mem_cons_self) reads done)
      fun later listed => only later (List.mem_cons_of_mem _ listed)

theorem not_trace (attempted : s.attempt key words = .ok (command, ⟨t, .redraw, notices⟩)) :
    command ≠ .trace := by
  rintro rfl
  cases (attempt_eq_ok.mp attempted).2

theorem attempt_append (attempted : s.attempt key words = .ok (command, ⟨t, .redraw, notices⟩))
    (more : List String) :
    s.attempt key (words ++ more) = .ok (command, ⟨t, .redraw, notices⟩) := by
  obtain ⟨reads, applied⟩ := attempt_eq_ok.mp attempted
  exact attempt_eq_ok.mpr ⟨Command.read_append reads (not_trace attempted) more, applied⟩

theorem attempt_front
    (attempted : s.attempt key (front ++ back) = .ok (command, ⟨t, .redraw, notices⟩))
    (enough : command.argumentCount ≤ front.length) :
    s.attempt key front = .ok (command, ⟨t, .redraw, notices⟩) := by
  obtain ⟨reads, applied⟩ := attempt_eq_ok.mp attempted
  exact attempt_eq_ok.mpr ⟨Command.read_front reads (not_trace attempted) enough, applied⟩

theorem enterWords_append (back : List String)
    (redrawn : (s.enterWords taken front).event = .redraw) (enough : taken ≤ front.length) :
    s.enterWords taken (front ++ back) =
      ((s.enterWords taken front).session.enterWords 0 back).after
        (s.enterWords taken front).notices := by
  induction s, taken, front using line_induction with
  | nil s taken =>
    obtain rfl : taken = 0 := by simpa using enough
    rfl
  | skip s taken word rest ih => exact ih redrawn (by simpa using enough)
  | last s key rest ended =>
    rw [enterWords_last ended] at redrawn
    exact absurd redrawn ended
  | next s key rest command t notices attempted ih =>
    have reads := (attempt_eq_ok.mp attempted).1
    rw [enterWords_next attempted] at redrawn ⊢
    rw [List.cons_append, enterWords_next (attempt_append attempted back),
      ih redrawn (Command.argumentCount_le reads)]
    simp [Reply.after]

theorem split_of_ended (ended : (s.enterWords taken words).event ≠ .redraw) :
    ∃ front key rest, words = front ++ key :: rest ∧ taken ≤ front.length ∧
      (s.enterWords taken front).event = .redraw ∧
      ((s.enterWords taken front).session.answer key rest).event ≠ .redraw ∧
      s.enterWords taken words =
        ((s.enterWords taken front).session.answer key rest).after
          (s.enterWords taken front).notices ∧
      s.executed taken words =
        s.executed taken front ++ (s.enterWords taken front).session.executed 0 (key :: rest) := by
  induction s, taken, words using line_induction with
  | nil s taken =>
    rw [enterWords_nil] at ended
    exact absurd rfl ended
  | skip s taken word rest ih =>
    obtain ⟨front, key, later, rfl, enough, split⟩ := ih ended
    exact ⟨word :: front, key, later, rfl, by simpa using enough, split⟩
  | last s key rest lastEnded =>
    exact ⟨[], key, rest, rfl, Nat.le_refl 0, rfl, lastEnded, enterWords_last lastEnded, rfl⟩
  | next s key rest command t notices attempted ih =>
    rw [enterWords_next attempted] at ended
    obtain ⟨front, other, later, rfl, enough, redrawn, lastEnded, whole, carried⟩ := ih ended
    have early := attempt_front attempted enough
    refine ⟨key :: front, other, later, rfl, Nat.zero_le _, ?_⟩
    rw [enterWords_next early, enterWords_next attempted, executed_next early,
      executed_next attempted, whole, carried]
    exact ⟨redrawn, lastEnded, by simp [Reply.after], rfl⟩

end Session

end PolishPlotter
