import PolishPlotter.Proofs.Session.Refusals
import PolishPlotter.Proofs.Text.Words

set_option autoImplicit false

namespace PolishPlotter.Session

open Machine Screen

theorem lines_join :
    (∀ (s : Session) (front back : String), (s.enter front).event = .redraw →
      let whole := s.enter (front ++ " " ++ back)
      let second := (s.enter front).session.enter back
      whole.event = second.event ∧ whole.session = second.session ∧
        whole.notices = (s.enter front).notices ++ second.notices) ∧
    ∀ (s : Session) (line other : String),
      wordsBetween (line.toList.splitOnP isWhiteSpace) =
        wordsBetween (other.toList.splitOnP isWhiteSpace) → s.enter line = s.enter other := by
  constructor
  · intro s front back redrawn whole second
    have joined : whole = second.after (s.enter front).notices := by
      rw [enter_eq] at redrawn
      simp only [whole, second, enter_eq, words_append_space]
      exact enterWords_append (words back) redrawn (Nat.zero_le _)
    rw [joined]
    exact ⟨rfl, rfl, rfl⟩
  · intro s line other same
    rw [← words_eq_wordsBetween, ← words_eq_wordsBetween] at same
    rw [enter_eq, enter_eq, same]

-- A number that one line leaves open takes its sign from the next.
theorem sign_joins :
    let s := new .default
    (s.enter "clear 12").event = .redraw ∧
      (s.enter ("clear 12" ++ " " ++ "neg")).session =
        ((s.enter "clear 12").session.enter "neg").session ∧
      (s.enter ("clear 12" ++ " " ++ "neg")).session.keypad.text = ['-', '1', '2'] := by
  intro s
  have redrawn : (s.enter "clear 12").event = .redraw := by
    rw [enter_eq]
    rfl
  obtain ⟨-, same, -⟩ := lines_join.1 s "clear 12" "neg" redrawn
  refine ⟨redrawn, same, ?_⟩
  rw [enter_eq]
  decide

/-- How a line can end: the word that starts its last command, the words from there on, the commands
carried out, and the reply. -/
inductive Ending (t : Session) : String → List String → List Command → Reply → Prop
  | refused {key : String} {rest : List String} {refusal : Refusal}
    (refused : t.attempt key rest = .error refusal) (untouched : ∀ e, refusal ≠ .failed e) :
    Ending t key rest [] ⟨t, .message ("Error: " ++ refusal.message), []⟩
  | quit {key : String} {rest : List String} (word : key = "quit" ∨ key = "exit") :
    Ending t key rest [.quit] ⟨t, .quit, []⟩
  | traced {key : String} {rest : List String} {command : Command} {trace : Trace}
    (word : key = "trace" ∨ key = "snap") : Ending t key rest [command] ⟨t, .trace trace, []⟩
  | moved {a b : String} {rest : List String} {dx dy : Float} {trace : Trace}
    (readX : Decimal.read? a = some dx) (readY : Decimal.read? b = some dy) :
    Ending t "cursor" (a :: b :: rest) [.move dx dy]
      ⟨{ t with cursor := t.cursor.nudge dx dy }, .trace trace, []⟩

variable {s t : Session} {key : String} {rest : List String} {command : Command} {reply : Reply}

theorem redraw_of_not_ends (attempted : t.attempt key rest = .ok (command, reply))
    (goesOn : command.ends = false) : reply.event = .redraw := by
  obtain ⟨reads, done⟩ := attempt_eq_ok.mp attempted
  have applied := t.apply_applied (Command.isProper_of_read reads)
  rw [done] at applied
  cases applied with
  | edited | viewed | slid => rfl
  | ended ends =>
    rw [goesOn] at ends
    cases ends

theorem read?_of_numberOf {a : String} {x : Float} (read : Command.numberOf a = .ok x) :
    Decimal.read? a = some x := by
  unfold Command.numberOf at read
  split at read
  · next y found =>
    cases read
    exact found
  · cases read

theorem ending_of_answer (ended : (t.answer key rest).event ≠ .redraw) :
    Ending t key rest (t.executed 0 (key :: rest)) (t.answer key rest) := by
  rcases last_cases ended with ⟨refusal, attempted, answered, none⟩ | ⟨command, attempted, only⟩
  · rw [answered, none]
    exact .refused attempted (t.attempt_refuses key rest refusal attempted).ne_failed
  · have ends : command.ends = true := by
      by_contra goesOn
      exact ended (redraw_of_not_ends attempted (by simpa using goesOn))
    obtain ⟨reads, done⟩ := attempt_eq_ok.mp attempted
    rw [only]
    generalize t.answer key rest = reply at done
    cases Command.read_eq_ok reads with
    | add | number => cases ends
    | keyed _ _ readOff =>
      obtain ⟨args, later, rfl, spelled, -⟩ := readOff
      cases spelled with
      | quit =>
        cases done
        exact .quit (.inl rfl)
      | exit =>
        cases done
        exact .quit (.inr rfl)
      | trace | traceAt =>
        cases done
        exact .traced (.inl rfl)
      | snap =>
        cases done
        exact .traced (.inr rfl)
      | move readX readY =>
        cases done
        exact .moved (read?_of_numberOf readX) (read?_of_numberOf readY)
      | _ => cases ends

theorem attempt_of_message {text : String} (shown : (t.answer key rest).event = .message text) :
    ∃ refusal, t.attempt key rest = .error refusal ∧ text = "Error: " ++ refusal.message := by
  have ended : (t.answer key rest).event ≠ .redraw := by
    rw [shown]
    exact nofun
  have ending := ending_of_answer ended
  generalize t.answer key rest = reply at ending shown
  generalize t.executed 0 (key :: rest) = commands at ending
  cases ending with
  | refused refused untouched =>
    cases shown
    exact ⟨_, refused, rfl⟩
  | quit | traced | moved => cases shown

theorem enter_front {line : String} {front back : List String}
    (split : words line = front ++ back) :
    s.enter (" ".intercalate front) = s.enterWords 0 front := by
  rw [enter_eq, words_intercalate]
  intro word member
  have listed : word ∈ words line := by
    rw [split]
    exact List.mem_append_left back member
  exact isWord_of_mem_words listed

theorem ended_line_keeps_prefix :
    (∀ (key : String) (p q : Progress) (refusal : Refusal), Step.token key p = .error refusal q →
      q.session = p.session ∧ q.notices = p.notices) ∧
    ∀ (s : Session) (line : String), (s.enter line).event = .redraw ∨
    ∃ front key rest, words line = front ++ key :: rest ∧
      let reply := s.enter line
      let before := s.enter (" ".intercalate front)
      before.event = .redraw ∧ reply.notices = before.notices ∧
      (∀ text, reply.event = .message text →
        reply.session = before.session ∧ s.executed 0 (words line) = s.executed 0 front ∧
        ∃ refusal left, (∀ e, refusal ≠ .failed e) ∧ text = "Error: " ++ refusal.message ∧
          Step.token key ⟨before.session, rest, before.notices⟩ =
            .error refusal ⟨before.session, left, before.notices⟩) ∧
      (reply.event = .quit → reply.session = before.session ∧ (key = "quit" ∨ key = "exit")) ∧
      ∀ trace, reply.event = .trace trace →
        reply.session = before.session ∧ (key = "trace" ∨ key = "snap") ∨
        ∃ a b more dx dy, key = "cursor" ∧ rest = a :: b :: more ∧
          Decimal.read? a = some dx ∧ Decimal.read? b = some dy ∧
          reply.session =
            { before.session with cursor := before.session.cursor.nudge dx dy } := by
  refine ⟨fun key p q refusal => Step.session_of_refused, fun s line => ?_⟩
  by_cases redrawn : (s.enter line).event = .redraw
  · exact .inl redrawn
  rw [enter_eq] at redrawn
  obtain ⟨front, key, rest, split, -, early, ended, whole, carried⟩ := split_of_ended redrawn
  refine .inr ⟨front, key, rest, split, ?_⟩
  rw [enter_front split, enter_eq, whole, carried]
  refine ⟨early, ?_⟩
  generalize s.enterWords 0 front = before at ended ⊢
  have ending := ending_of_answer ended
  generalize before.session.answer key rest = last at ending ⊢
  generalize before.session.executed 0 (key :: rest) = commands at ending ⊢
  cases ending with
  | refused refused untouched =>
    refine ⟨by simp, ?_, by simp, by simp⟩
    rintro text ⟨⟩
    obtain ⟨left, stopped⟩ := Step.token_of_refused refused before.notices
    exact ⟨rfl, List.append_nil _, _, left, untouched, rfl, stopped⟩
  | quit word => exact ⟨by simp, by simp, fun _ => ⟨rfl, word⟩, by simp⟩
  | traced word => exact ⟨by simp, by simp, by simp, fun _ _ => .inl ⟨rfl, word⟩⟩
  | moved readX readY =>
    refine ⟨by simp, by simp, by simp, fun _ _ => .inr ?_⟩
    exact ⟨_, _, _, _, _, rfl, rfl, readX, readY, rfl⟩

@[irreducible]
def begun : Session := ((new .default).enter "clear 1").session

-- `range` has its slider and its first bound when it fails.
def halfRead : Reply := (new .default).enter "clear 1 range a 2 e 7"

theorem half_read_range_keeps_prefix :
    (∃ q, Step.token "range" ⟨begun, ["a", "2", "e", "7"], []⟩ = .error (.notANumber "e") q ∧
      q.session = begun) ∧
    halfRead.event = .message "Error: 'e' is not a number" ∧
    (∃ front, ((new .default).enter (" ".intercalate front)).event = .redraw ∧
      halfRead.session = ((new .default).enter (" ".intercalate front)).session) ∧
    halfRead.session = begun ∧ begun.keypad.entry? = some "1" := by
  obtain ⟨atomic, lines⟩ := ended_line_keeps_prefix
  have unread : begun.attempt "range" ["a", "2", "e", "7"] = .error (.notANumber "e") := by
    rw [begun, enter_eq]
    rfl
  have shown : halfRead.event = .message "Error: 'e' is not a number" := by
    rw [halfRead, enter_eq]
    rfl
  have ended : halfRead.event ≠ .redraw := by
    rw [shown]
    exact nofun
  have same : halfRead.session = begun := by
    rw [halfRead, begun, enter_eq, enter_eq]
    rfl
  have entry : begun.keypad.entry? = some "1" := by
    rw [begun, enter_eq]
    rfl
  obtain ⟨left, failed⟩ := Step.token_of_refused unread []
  have kept := (atomic _ _ _ _ failed).1
  obtain ⟨front, key, rest, -, early, -, refused, -⟩ :=
    (lines (new .default) "clear 1 range a 2 e 7").resolve_left ended
  exact ⟨⟨_, failed, kept⟩, shown, ⟨front, early, (refused _ shown).1⟩, same, entry⟩

end PolishPlotter.Session
