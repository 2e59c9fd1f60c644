import PolishPlotter.Proofs.Session.Display
import PolishPlotter.Session.Loop

set_option autoImplicit false

namespace PolishPlotter.Loop

open Controls Screen
open Session (TerminalSize)

inductive Reading
  | line (text : String) (measured : Measured)
  | interrupt
  | otherSignal
  | endOfInput

namespace Reading

def stimulus : Reading → Stimulus
  | .line text measured => .line text measured
  | .interrupt => .interrupt
  | .otherSignal => .otherSignal
  | .endOfInput => .endOfInput

def inputs : Reading → List Session.Input
  | .line text _ => [.line text]
  | .interrupt => [.interrupt]
  | .otherSignal | .endOfInput => []

def stops (s : Session) : Reading → Bool
  | .line text _ =>
    match (s.enter text).event with
    | .quit => true
    | _ => false
  | .interrupt => false
  | .otherSignal | .endOfInput => true

def written? (paint : Paint) (s : Session) : Reading → Option String
  | .line text measured =>
    match s.enter text with
    | ⟨t, .redraw, _⟩ => some (t.frame paint (measured.toOption.getD ⟨80, 24⟩))
    | ⟨_, .message m, _⟩ => some (paint.bold m ++ "\n")
    | ⟨_, .trace ⟨x, some y⟩, _⟩ =>
      some ("X = " ++ Decimal.fixed 5 x ++ "  Y = " ++ Decimal.fixed 5 y ++ "\n")
    | ⟨_, .trace ⟨x, none⟩, _⟩ => some ("X = " ++ Decimal.fixed 5 x ++ "  Y undefined\n")
    | ⟨_, .quit, _⟩ => none
  | _ => none

def remembered? : Reading → Option String
  | .line text _ => if text.toList.any (!isWhiteSpace ·) then some text else none
  | _ => none

def shown (paint : Paint) (s : Session) (reading : Reading) : List Effect :=
  match reading with
  | .line _ _ =>
    (reading.written? paint s).toList.map .write ++ reading.remembered?.toList.map .history
  | .interrupt => [.buffer ""]
  | .otherSignal | .endOfInput => []

end Reading

structure Read where
  flagged : Bool
  reading : Reading

namespace Read

def cancelled (read : Read) : List Session.Input := if read.flagged then [.interrupt] else []

def inputs (read : Read) : List Session.Input := read.cancelled ++ read.reading.inputs

end Read

def flagUp : List Read → Bool
  | [] => false
  | read :: _ => read.flagged

-- A flag that is found raised before a read has gone up during the one before.
def stimuli : List Read → List Stimulus
  | [] => []
  | read :: rest => (if flagUp rest then [.raise] else []) ++ read.reading.stimulus :: stimuli rest

/-- The session that waits for a read: it has heard of all the reads before, and of the flag. -/
def waiting (s : Session) (reads : List Read) (index : Nat) : Session :=
  s.run ((reads.take index).flatMap Read.inputs ++ (reads[index]?.map Read.cancelled).getD [])

def promptText (s : Session) : String := "Y" ++ toString (s.slots.active.val + 1) ++ "> "

def turn (paint : Paint) (s : Session) (reads : List Read) (index : Nat) : List Effect :=
  let t := waiting s reads index
  .prompt (promptText t) :: (reads[index]?.map (·.reading.shown paint t)).getD []

def visible (effects : List Effect) : List Effect :=
  effects.filter fun
    | .log _ => false
    | _ => true

def prompts (effects : List Effect) : List String :=
  effects.filterMap fun
    | .prompt text => some text
    | _ => none

def writes (effects : List Effect) : List String :=
  effects.filterMap fun
    | .write text => some text
    | _ => none

def histories (effects : List Effect) : List String :=
  effects.filterMap fun
    | .history line => some line
    | _ => none

structure Follows (paint : Paint) (s : Session) (reads : List Read) (stop : Nat) (run : Run) : Prop where
  inside : stop ≤ reads.length
  goesOn : ∀ k < stop, ∀ read, reads[k]? = some read →
    read.reading.stops (waiting s reads k) = false
  ends : ∀ read, reads[stop]? = some read → read.reading.stops (waiting s reads stop) = true
  outcome : run.outcome = .finished
  effects : visible run.effects =
    (List.range stop).flatMap (turn paint s reads) ++ [.prompt (promptText (waiting s reads stop))]

def proceed (paint : Paint) (s : Session) (reads : List Read) : Run :=
  let (state, prompted) := ready ⟨s, flagUp reads⟩
  (resume paint state (stimuli reads)).after prompted

variable {paint : Paint} {s : Session} {reads rest : List Read} {read : Read} {reading : Reading}

@[simp] theorem visible_append (front back : List Effect) :
    visible (front ++ back) = visible front ++ visible back :=
  List.filter_append ..

@[simp] theorem visible_log (notices : List Notice) : visible (notices.map .log) = [] := by
  simp [visible]

@[simp] theorem visible_prompt (text : String) (rest : List Effect) :
    visible (.prompt text :: rest) = .prompt text :: visible rest := rfl

@[simp] theorem effects_after (run : Run) (effects : List Effect) :
    (run.after effects).effects = effects ++ run.effects := rfl

section Waiting

theorem waiting_zero : waiting s (read :: rest) 0 = s.run read.cancelled := rfl

theorem waiting_succ (index : Nat) :
    waiting s (read :: rest) (index + 1) = waiting (s.run read.inputs) rest index := by
  simp only [waiting, List.take_succ_cons, List.flatMap_cons, List.getElem?_cons_succ,
    List.append_assoc, Session.run_append]

theorem turn_zero :
    turn paint s (read :: rest) 0 =
      .prompt (promptText (s.run read.cancelled)) :: read.reading.shown paint (s.run read.cancelled) :=
  rfl

theorem turn_succ (index : Nat) :
    turn paint s (read :: rest) (index + 1) = turn paint (s.run read.inputs) rest index := by
  simp only [turn, waiting_succ, List.getElem?_cons_succ]

end Waiting

section Turn

theorem ready_eq (s : Session) (raised : Bool) :
    ∃ notices : List Notice,
      ready ⟨s, raised⟩ = (⟨if raised then s.interrupt else s, false⟩,
        notices.map .log ++ [.prompt (promptText (if raised then s.interrupt else s))]) := by
  cases raised with
  | false => exact ⟨[], rfl⟩
  | true => exact ⟨[Session.interruptNotice], rfl⟩

theorem run_cancelled (s : Session) (read : Read) :
    s.run read.cancelled = if read.flagged then s.interrupt else s := by
  unfold Read.cancelled
  cases read.flagged <;> rfl

theorem resume_raise (s : Session) (rest : List Read) (more : List Stimulus) :
    resume paint ⟨s, false⟩ ((if flagUp rest then [.raise] else []) ++ more) =
      resume paint ⟨s, flagUp rest⟩ more := by
  cases flagUp rest with
  | false => rfl
  | true => rfl

theorem resume_of_stops (stopped : reading.stops s = true) (raised : Bool) (more : List Stimulus) :
    ∃ notices : List Notice,
      resume paint ⟨s, raised⟩ (reading.stimulus :: more) = ⟨notices.map .log, .finished⟩ := by
  cases reading with
  | interrupt => cases stopped
  | otherSignal | endOfInput => exact ⟨[], rfl⟩
  | line text measured =>
    refine ⟨(s.enter text).notices, ?_⟩
    simp only [Reading.stops, Reading.stimulus, resume, respond] at stopped ⊢
    cases event : (s.enter text).event with
    | quit => rfl
    | redraw | message | trace =>
      rw [event] at stopped
      cases stopped

theorem visible_remember (text : String) (measured : Measured) :
    visible (remember text) = (Reading.line text measured).remembered?.toList.map .history := by
  have blank : isBlankLine text = !text.toList.any (!isWhiteSpace ·) := by
    simp [isBlankLine, List.all_eq_not_any_not]
  simp only [remember, Reading.remembered?, blank]
  cases text.toList.any (!isWhiteSpace ·) <;> rfl

theorem sizeOf_eq (measured : Measured) : sizeOf measured = measured.toOption.getD ⟨80, 24⟩ := by
  cases measured <;> rfl

theorem visible_redraw (paint : Paint) (s : Session) (measured : Measured) :
    visible (redraw paint s measured) =
      [.write (s.frame paint (measured.toOption.getD ⟨80, 24⟩))] := by
  rw [redraw, visible_append, visible_log, sizeOf_eq]
  rfl

theorem traceText_eq (t : Trace) :
    traceText t = "X = " ++ Decimal.fixed 5 t.x ++
      t.y.elim "  Y undefined\n" ("  Y = " ++ Decimal.fixed 5 · ++ "\n") := by
  obtain ⟨x, _ | y⟩ := t <;> simp only [traceText, Option.elim, String.append_assoc]
  · rfl
  · have joined : "  " ++ "Y = " = "  Y = " := rfl
    rw [← joined, String.append_assoc]

theorem visible_answer {text : String} {measured : Measured}
    (goesOn : (Reading.line text measured).stops s = false) :
    visible (answer paint (s.enter text).session measured (s.enter text).event) =
      ((Reading.line text measured).written? paint s).toList.map .write := by
  simp only [Reading.stops, Reading.written?] at goesOn ⊢
  generalize s.enter text = reply at goesOn ⊢
  obtain ⟨t, event, notices⟩ := reply
  cases event with
  | quit => cases goesOn
  | message => rfl
  | redraw => exact visible_redraw paint t measured
  | trace t =>
    rw [answer, traceText_eq]
    obtain ⟨x, _ | y⟩ := t <;> simp [visible, String.append_assoc]

theorem resume_of_goesOn (goesOn : reading.stops s = false) (rest : List Read) :
    ∃ replied, visible replied = reading.shown paint s ∧
      resume paint ⟨s, flagUp rest⟩ (reading.stimulus :: stimuli rest) =
        (proceed paint (s.run reading.inputs) rest).after replied := by
  cases reading with
  | otherSignal | endOfInput => cases goesOn
  | interrupt =>
    refine ⟨[.buffer "", .log Session.interruptNotice], rfl, ?_⟩
    simp only [Reading.stimulus, resume, respond, proceed, Run.after, List.append_assoc]
    rfl
  | line text measured =>
    refine ⟨(s.enter text).notices.map .log ++
      (answer paint (s.enter text).session measured (s.enter text).event ++ remember text), ?_, ?_⟩
    · simp only [visible_append, visible_log, visible_answer goesOn, visible_remember text measured,
        Reading.shown, List.nil_append]
    · simp only [Reading.stops] at goesOn
      simp only [Reading.stimulus, resume, respond, proceed, Run.after]
      cases event : (s.enter text).event with
      | quit =>
        rw [event] at goesOn
        cases goesOn
      | redraw | message | trace =>
        simp only [List.append_assoc]
        rfl

end Turn

section Follows

theorem Follows.nil : Follows paint s [] 0 (proceed paint s []) where
  inside := Nat.le_refl 0
  goesOn _ early := absurd early (Nat.not_lt_zero _)
  ends := nofun
  outcome := rfl
  effects := rfl

theorem proceed_cons (paint : Paint) (s : Session) (read : Read) (rest : List Read) :
    ∃ notices : List Notice,
      proceed paint s (read :: rest) =
        (resume paint ⟨s.run read.cancelled, flagUp rest⟩
          (read.reading.stimulus :: stimuli rest)).after
            (notices.map .log ++ [.prompt (promptText (s.run read.cancelled))]) := by
  obtain ⟨notices, same⟩ := ready_eq s read.flagged
  refine ⟨notices, ?_⟩
  rw [proceed, flagUp, same, stimuli, run_cancelled]
  simp only [resume_raise]

theorem Follows.stop (stopped : read.reading.stops (s.run read.cancelled) = true)
    (rest : List Read) : Follows paint s (read :: rest) 0 (proceed paint s (read :: rest)) := by
  obtain ⟨notices, proceeds⟩ := proceed_cons paint s read rest
  obtain ⟨logged, resumed⟩ := resume_of_stops stopped (flagUp rest) (stimuli rest)
  rw [proceeds, resumed]
  refine ⟨Nat.zero_le _, fun _ early => absurd early (Nat.not_lt_zero _), ?_, rfl, ?_⟩
  · rintro other ⟨⟩
    exact stopped
  · simp [waiting_zero]

theorem Follows.next {stop : Nat} (goesOn : read.reading.stops (s.run read.cancelled) = false)
    (later : Follows paint (s.run read.inputs) rest stop (proceed paint (s.run read.inputs) rest)) :
    Follows paint s (read :: rest) (stop + 1) (proceed paint s (read :: rest)) := by
  obtain ⟨notices, proceeds⟩ := proceed_cons paint s read rest
  obtain ⟨replied, shown, resumed⟩ := resume_of_goesOn goesOn rest
  rw [← Session.run_append] at resumed
  rw [proceeds, resumed]
  refine ⟨Nat.succ_le_succ later.inside, ?_, ?_, later.outcome, ?_⟩
  · intro k early other given
    cases k with
    | zero =>
      cases given
      exact goesOn
    | succ k =>
      rw [waiting_succ]
      exact later.goesOn k (Nat.lt_of_succ_lt_succ early) other given
  · intro other given
    rw [waiting_succ]
    exact later.ends other given
  · have turns : (List.range (stop + 1)).flatMap (turn paint s (read :: rest)) =
        turn paint s (read :: rest) 0 ++ (List.range stop).flatMap (turn paint (s.run read.inputs) rest) := by
      simp only [List.range_succ_eq_map, List.flatMap_cons, List.flatMap_map, turn_succ]
    have shows := later.effects
    rw [turns, turn_zero, waiting_succ, ← shown, List.append_assoc, ← shows]
    simp only [effects_after, visible_append, visible_log, Read.inputs]
    rfl

theorem exists_follows (paint : Paint) (s : Session) (reads : List Read) :
    ∃ stop, Follows paint s reads stop (proceed paint s reads) := by
  induction reads generalizing s with
  | nil => exact ⟨0, .nil⟩
  | cons read rest ih =>
    cases stopped : read.reading.stops (s.run read.cancelled) with
    | true => exact ⟨0, .stop stopped rest⟩
    | false =>
      obtain ⟨stop, later⟩ := ih (s.run read.inputs)
      exact ⟨stop + 1, .next stopped later⟩

theorem run_eq_proceed (paint : Paint) (settings : Settings) (measured : Measured)
    (reads : List Read) :
    run paint settings measured (flagUp reads) (stimuli reads) =
      (proceed paint (.new settings) reads).after (redraw paint (.new settings) measured) := by
  simp only [run, start, proceed, Run.after, List.append_assoc]

end Follows

section Projections

theorem filterMap_visible {α : Type} {pick : Effect → Option α}
    (unlogged : ∀ notice, pick (.log notice) = none) (effects : List Effect) :
    (visible effects).filterMap pick = effects.filterMap pick := by
  rw [visible, List.filterMap_filter]
  refine List.filterMap_congr fun effect _ => ?_
  cases effect with
  | log notice => exact (unlogged notice).symm
  | _ => rfl

theorem prompts_turn (index : Nat) :
    prompts (turn paint s reads index) = [promptText (waiting s reads index)] := by
  unfold turn prompts
  cases reads[index]? with
  | none => rfl
  | some read =>
    obtain ⟨flagged, reading⟩ := read
    cases reading with
    | line text measured => simp [Reading.shown]
    | _ => rfl

theorem writes_turn (index : Nat) :
    writes (turn paint s reads index) =
      (reads[index]?.bind (·.reading.written? paint (waiting s reads index))).toList := by
  unfold turn writes
  cases reads[index]? with
  | none => rfl
  | some read =>
    obtain ⟨flagged, reading⟩ := read
    cases reading with
    | line text measured => simp [Reading.shown]
    | _ => rfl

theorem histories_turn (index : Nat) :
    histories (turn paint s reads index) = (reads[index]?.bind (·.reading.remembered?)).toList := by
  unfold turn histories
  cases reads[index]? with
  | none => rfl
  | some read =>
    obtain ⟨flagged, reading⟩ := read
    cases reading with
    | line text measured => simp [Reading.shown]
    | _ => rfl

theorem flatMap_range_getElem? {α : Type} (f : Read → Option α) (count : Nat) :
    (List.range count).flatMap (fun k => (reads[k]?.bind f).toList) =
      (reads.take count).filterMap f := by
  induction reads generalizing count with
  | nil => simp
  | cons read rest ih =>
    cases count with
    | zero => rfl
    | succ count =>
      simp only [List.range_succ_eq_map, List.flatMap_cons, List.flatMap_map,
        List.getElem?_cons_succ, List.getElem?_cons_zero, Option.bind_some, ih,
        List.take_succ_cons, List.filterMap_cons]
      cases f read <;> rfl

theorem newline_not_mem_of_message {text m : String} (shown : (s.enter text).event = .message m) :
    '\n' ∉ m.toList := by
  rw [Session.enter_eq] at shown
  obtain ⟨key, rest, refusal, inside, cause, rfl⟩ := Session.cause_of_message shown
  have solid : ∀ w ∈ key :: rest, '\n' ∉ w.toList := by
    intro w member broken
    cases (isWord_of_mem_words (inside member)).solid '\n' broken
  rw [String.toList_append, List.mem_append, not_or]
  exact ⟨by decide, cause.newline_not_mem_message solid⟩

inductive Answered (t : Session) (size : TerminalSize) : Event → String → Prop
  | frame {text : String} (shows : size.Fits → t.Shows size text) : Answered t size .redraw text
  | message {m painted : String} (wrapped : Wrapped m painted) (one : '\n' ∉ painted.toList) :
    Answered t size (.message m) (painted ++ "\n")
  | trace {traced : Trace} {line : String} (one : '\n' ∉ line.toList) :
    Answered t size (.trace traced) (line ++ "\n")

theorem answered_trace (t : Session) (size : TerminalSize) (traced : Trace) {line : String}
    (plain : Plain line) : Answered t size (.trace traced) (line ++ "\n") :=
  .trace fun broken => (plain '\n' broken).1 rfl

theorem exists_answered {settings : Settings} {text : String} {measured : Measured}
    (wraps : paint.Wraps) (reachable : Session.Reachable settings s)
    (goesOn : (Reading.line text measured).stops s = false) :
    ∃ written, (Reading.line text measured).written? paint s = some written ∧
      Answered (s.enter text).session (measured.toOption.getD ⟨80, 24⟩) (s.enter text).event
        written := by
  have next : Session.Reachable settings (s.enter text).session := .enter text reachable
  have whole : ∀ m, (s.enter text).event = .message m → '\n' ∉ m.toList :=
    fun _ => newline_not_mem_of_message
  simp only [Reading.stops, Reading.written?] at goesOn ⊢
  generalize s.enter text = reply at goesOn next whole ⊢
  obtain ⟨t, event, notices⟩ := reply
  cases event with
  | quit => cases goesOn
  | redraw => exact ⟨_, rfl, .frame (next.shows_frame wraps)⟩
  | message m =>
    have wrapped := wraps.bold m
    exact ⟨_, rfl, .message wrapped (wrapped.whole (whole m rfl))⟩
  | trace traced =>
    have marks : Plain "X = " ∧ Plain "  Y = " ∧ Plain "  Y undefined" := by simp [Plain]
    obtain ⟨x, _ | y⟩ := traced
    · have line := (marks.1.append (.fixed 5 x)).append marks.2.2
      have split : "  Y undefined\n" = "  Y undefined" ++ "\n" := rfl
      refine ⟨_, rfl, ?_⟩
      rw [split, ← String.append_assoc]
      exact answered_trace t _ _ line
    · have line := ((marks.1.append (.fixed 5 x)).append marks.2.1).append (.fixed 5 y)
      exact ⟨_, rfl, answered_trace t _ _ line⟩

end Projections

/-- The loop waits for each read with the session that has heard of all the reads before it, and of
the flag, and prompts for it with the number of its active slot. It ends at the first line that
quits, the first signal that is no interrupt, or the end of the input. Each line before that is
answered with one text, a frame in the size that is then the terminal's or a single line, and
remembered unless it is blank. -/
theorem loop_folds_reads {paint : Paint} (wraps : paint.Wraps) (settings : Settings)
    (measured : Measured) (reads : List Read) :
    let s := Session.new settings
    let size := measured.toOption.getD ⟨80, 24⟩
    let run := Loop.run paint settings measured (flagUp reads) (stimuli reads)
    ∃ stop ≤ reads.length,
      (∀ k < stop, ∀ read, reads[k]? = some read →
        read.reading.stops (waiting s reads k) = false) ∧
      (∀ read, reads[stop]? = some read → read.reading.stops (waiting s reads stop) = true) ∧
      run.outcome = .finished ∧
      visible run.effects = .write (s.frame paint size) ::
        ((List.range stop).flatMap (turn paint s reads) ++
          [.prompt (promptText (waiting s reads stop))]) ∧
      prompts run.effects =
        (List.range (stop + 1)).map (fun k => promptText (waiting s reads k)) ∧
      (size.Fits → s.Shows size (s.frame paint size)) ∧
      (∀ k < stop, ∀ flagged text measured, reads[k]? = some ⟨flagged, .line text measured⟩ →
        let reply := (waiting s reads k).enter text
        ∃ written, (Reading.line text measured).written? paint (waiting s reads k) = some written ∧
          Answered reply.session (measured.toOption.getD ⟨80, 24⟩) reply.event written) ∧
      writes run.effects = s.frame paint size ::
        (List.range stop).flatMap
          (fun k => (reads[k]?.bind (·.reading.written? paint (waiting s reads k))).toList) ∧
      histories run.effects = (reads.take stop).filterMap (·.reading.remembered?) := by
  intro s size run
  obtain ⟨stop, follows⟩ := exists_follows paint s reads
  have shows : visible run.effects = .write (s.frame paint size) ::
      ((List.range stop).flatMap (turn paint s reads) ++
        [.prompt (promptText (waiting s reads stop))]) := by
    rw [show run = _ from run_eq_proceed paint settings measured reads, effects_after,
      visible_append, visible_redraw, follows.effects]
    rfl
  have picked {α : Type} (pick : Effect → Option α)
      (unlogged : ∀ notice, pick (.log notice) = none) :
      run.effects.filterMap pick = [Effect.write (s.frame paint size)].filterMap pick ++
        ((List.range stop).flatMap (fun k => (turn paint s reads k).filterMap pick) ++
          [Effect.prompt (promptText (waiting s reads stop))].filterMap pick) := by
    rw [← filterMap_visible unlogged, shows, ← List.singleton_append, List.filterMap_append,
      List.filterMap_append, List.filterMap_flatMap]
  have start : Session.Reachable settings s := .new
  refine ⟨stop, follows.inside, follows.goesOn, follows.ends, follows.outcome, shows, ?_,
    start.shows_frame wraps, ?_, ?_, ?_⟩
  · refine (picked _ fun _ => rfl).trans ?_
    change [] ++ ((List.range stop).flatMap (fun k => prompts (turn paint s reads k)) ++ _) = _
    simp only [prompts_turn, ← List.map_eq_flatMap, List.range_succ, List.map_append]
    rfl
  · intro k early flagged text measured given
    exact exists_answered wraps (start.run _) (follows.goesOn k early _ given)
  · refine (picked _ fun _ => rfl).trans ?_
    change _ :: ((List.range stop).flatMap (fun k => writes (turn paint s reads k)) ++ []) = _
    simp only [writes_turn, List.append_nil]
  · refine (picked _ fun _ => rfl).trans ?_
    change [] ++ ((List.range stop).flatMap (fun k => histories (turn paint s reads k)) ++ []) = _
    simp only [histories_turn, List.append_nil, List.nil_append, flatMap_range_getElem?]

-- The terminal changes its size between the first two reads, and the last one comes too late.
def visit : List Read :=
  [⟨false, .line "clear 2 x *" (.ok ⟨40, 12⟩)⟩, ⟨true, .line "trace 1" (.error "not a terminal")⟩,
    ⟨false, .line "down sin fog" (.ok ⟨40, 12⟩)⟩, ⟨false, .interrupt⟩,
    ⟨false, .line " quit" (.ok ⟨40, 12⟩)⟩, ⟨false, .line "x" (.ok ⟨40, 12⟩)⟩]

@[irreducible]
def doubled : Session := ((Session.new .default).enter "clear 2 x *").session

@[irreducible]
def strayed : Session := (doubled.interrupt.enter "down sin fog").session

theorem waiting_visit :
    let s := Session.new .default
    waiting s visit 0 = s ∧ waiting s visit 1 = doubled.interrupt ∧
      waiting s visit 2 = doubled.interrupt ∧ waiting s visit 3 = strayed ∧
      waiting s visit 4 = strayed.interrupt := by
  have first : ((Session.new .default).enter "clear 2 x *").session = doubled := by rw [doubled]
  have traced : (doubled.interrupt.enter "trace 1").session = doubled.interrupt := by
    rw [doubled, Session.enter_eq, Session.enter_eq]
    rfl
  have second : (doubled.interrupt.enter "down sin fog").session = strayed := by rw [strayed]
  simp [waiting, visit, Read.inputs, Read.cancelled, Reading.inputs, Session.run, first, traced,
    second]

theorem stops_visit (k : Nat) (read : Read) (given : visit[k]? = some read) (early : k ≤ 4) :
    read.reading.stops (waiting (.new .default) visit k) = decide (k = 4) := by
  obtain ⟨-, one, two, three, four⟩ := waiting_visit
  match k with
  | 0 =>
    cases given
    simp only [Reading.stops, Session.enter_eq]
    rfl
  | 1 =>
    cases given
    rw [one, doubled]
    simp only [Reading.stops, Session.enter_eq]
    rfl
  | 2 =>
    cases given
    rw [two, doubled]
    simp only [Reading.stops, Session.enter_eq]
    rfl
  | 3 =>
    cases given
    rfl
  | 4 =>
    cases given
    rw [four, strayed, doubled]
    simp only [Reading.stops, Session.enter_eq]
    rfl

theorem visit_folds_reads :
    let s := Session.new .default
    let run := Loop.run .ansi .default (.ok ⟨100, 30⟩) (flagUp visit) (stimuli visit)
    run.outcome = .finished ∧
      prompts run.effects = ["Y1> ", "Y1> ", "Y1> ", "Y2> ", "Y2> "] ∧
      writes run.effects = [s.frame .ansi ⟨100, 30⟩, doubled.frame .ansi ⟨40, 12⟩,
        "X = 1.00000  Y = 2.00000\n", "\x1b[1mError: unknown key 'fog'\x1b[0m\n"] ∧
      s.Shows ⟨100, 30⟩ (s.frame .ansi ⟨100, 30⟩) ∧
      histories run.effects = ["clear 2 x *", "trace 1", "down sin fog"] := by
  intro s run
  obtain ⟨stop, inside, goesOn, ends, finished, -, prompted, shows, -, written, remembered⟩ :=
    loop_folds_reads Paint.ansi_wraps .default (.ok ⟨100, 30⟩) visit
  obtain ⟨start, one, two, three, four⟩ := waiting_visit
  obtain rfl : stop = 4 := by
    refine Nat.le_antisymm (Nat.not_lt.mp fun late => ?_) (Nat.not_lt.mp fun early => ?_)
    · cases (goesOn 4 late _ rfl).symm.trans (stops_visit 4 _ rfl (Nat.le_refl 4))
    · obtain ⟨read, given⟩ : ∃ read, visit[stop]? = some read :=
        ⟨_, List.getElem?_eq_getElem (Nat.lt_trans early (by decide))⟩
      have stopped := (stops_visit stop read given early.le).symm.trans (ends read given)
      exact early.ne (of_decide_eq_true stopped)
  have framed : (Reading.line "clear 2 x *" (.ok ⟨40, 12⟩)).written? .ansi s =
      some (doubled.frame .ansi ⟨40, 12⟩) := by
    rw [doubled, Reading.written?, Session.enter_eq]
    rfl
  have traced : (Reading.line "trace 1" (.error "not a terminal")).written? .ansi
      doubled.interrupt = some "X = 1.00000  Y = 2.00000\n" := by
    rw [doubled, Reading.written?, Session.enter_eq, Session.enter_eq]
    decide +kernel
  have refused : (Reading.line "down sin fog" (.ok ⟨40, 12⟩)).written? .ansi doubled.interrupt =
      some "\x1b[1mError: unknown key 'fog'\x1b[0m\n" := by
    rw [doubled, Reading.written?, Session.enter_eq, Session.enter_eq]
    decide +kernel
  have label : promptText (.new .default) = "Y1> " ∧ promptText doubled.interrupt = "Y1> " ∧
      promptText strayed = "Y2> " ∧ promptText strayed.interrupt = "Y2> " := by
    rw [strayed, doubled, Session.enter_eq, Session.enter_eq]
    decide +kernel
  have answers (t : Nat → Session) :
      (List.range 4).flatMap
          (fun k => (visit[k]?.bind (·.reading.written? .ansi (t k))).toList) =
        ((Reading.line "clear 2 x *" (.ok ⟨40, 12⟩)).written? .ansi (t 0)).toList ++
          (((Reading.line "trace 1" (.error "not a terminal")).written? .ansi (t 1)).toList ++
            (((Reading.line "down sin fog" (.ok ⟨40, 12⟩)).written? .ansi (t 2)).toList ++ [])) :=
    rfl
  refine ⟨finished, prompted.trans ?_, written.trans ?_, shows ?_, remembered.trans ?_⟩
  · simp only [List.range_succ, List.range_zero, List.nil_append, List.cons_append, List.map_cons,
      List.map_nil, start, one, two, three, four, label]
  · rw [answers, start, one, two, framed, traced, refused]
    rfl
  · exact show 100 * 22 < 2 ^ 64 by decide
  · decide

end PolishPlotter.Loop
