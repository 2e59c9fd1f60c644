import PolishPlotter.Proofs.Controls.Entry
import PolishPlotter.Proofs.Machine.Registry
import PolishPlotter.Proofs.Session.Ending
import PolishPlotter.Proofs.Session.WellFormed

set_option autoImplicit false

namespace PolishPlotter

open Controls Machine

namespace Command

def variableNames : List String := ["x", "a", "b", "c", "d"]

def reserved : List String :=
  BinaryOp.all.map (·.label) ++ "dup" :: (Function.names ++ variableNames)

structure IsNumber (word : String) (negative : Bool) (digits : List Char) : Prop where
  spelled : word.toList = if negative then '-' :: digits else digits
  plain : ∀ c ∈ digits, c.isDigit = true ∨ c = '.'
  point : digits.count '.' ≤ 1
  digit : ∃ c ∈ digits, c.isDigit = true

def vocabulary : List String :=
  ["+", "-", "*", "/", "^"] ++ Function.names ++ keywords ++ "exit" :: variableNames

variable {vars : Vars} {word key : String} {negative : Bool} {digits : List Char}
  {refusal : Refusal}

section Instructions

theorem labelled?_eq_none_iff :
    BinaryOp.labelled? word = none ↔ word ∉ BinaryOp.all.map (·.label) := by
  simp [BinaryOp.labelled?]

theorem lookup?_eq_none_iff : Function.lookup? word = none ↔ word ∉ Function.names := by
  simp [Function.lookup?, Function.names_eq]

theorem instruction?_eq_none :
    instruction? vars word = none ↔
      BinaryOp.labelled? word = none ∧ word ≠ "dup" ∧ Function.lookup? word = none ∧
        vars.lookup? word = none := by
  unfold instruction?
  cases BinaryOp.labelled? word with
  | some op => simp
  | none =>
    by_cases dup : word = "dup"
    · simp [dup]
    · cases Function.lookup? word <;> simp [dup]

theorem instruction?_eq_none_iff (names : vars.names = variableNames) :
    instruction? vars word = none ↔ word ∉ reserved := by
  rw [instruction?_eq_none, labelled?_eq_none_iff, lookup?_eq_none_iff, Vars.lookup?_eq_none_iff,
    names]
  simp [reserved]

-- No name has a digit in it.
theorem instruction?_of_digit {c : Char} (names : vars.names = variableNames)
    (member : c ∈ word.toList) (digit : c.isDigit = true) : instruction? vars word = none := by
  refine (instruction?_eq_none_iff names).mpr fun named => ?_
  have digitless : ∀ name ∈ reserved, name.toList.all (!·.isDigit) = true := by decide
  have none_inside := List.all_eq_true.mp (digitless word named) c member
  simp [digit] at none_inside

end Instructions

section Numbers

theorem IsNumber.unsigned (isNumber : IsNumber word negative digits) : Unsigned digits where
  given := by
    obtain ⟨c, member, -⟩ := isNumber.digit
    exact List.ne_nil_of_mem member
  plain := isNumber.plain
  point := isNumber.point

theorem isNumeral_iff :
    isNumeral digits = true ↔
      (∃ c ∈ digits, c.isDigit = true) ∧ (∀ c ∈ digits, c.isDigit = true ∨ c = '.') ∧
        digits.count '.' ≤ 1 := by
  simp [isNumeral, and_assoc]

theorem unsigned_eq {text : List Char} (split : unsigned text = (negative, digits)) :
    text = if negative then '-' :: digits else digits := by
  unfold unsigned at split
  split at split <;> cases split <;> rfl

theorem IsNumber.split (isNumber : IsNumber word negative digits) :
    Command.unsigned word.toList = (negative, digits) := by
  rw [isNumber.spelled]
  cases negative with
  | true => rfl
  | false =>
    have signless := isNumber.unsigned.sign_not_mem
    cases digits with
    | nil => rfl
    | cons c rest =>
      have other : c ≠ '-' := by
        rintro rfl
        exact signless List.mem_cons_self
      simp [Command.unsigned, other]

theorem number?_eq_some_iff :
    number? word = some (.number negative digits) ↔ IsNumber word negative digits := by
  constructor
  · intro found
    simp only [number?] at found
    split at found
    · next numeral =>
      cases found
      obtain ⟨digit, plain, point⟩ := isNumeral_iff.mp numeral
      exact ⟨unsigned_eq rfl, plain, point, digit⟩
    · cases found
  · intro isNumber
    have numeral := isNumeral_iff.mpr ⟨isNumber.digit, isNumber.plain, isNumber.point⟩
    simp [number?, isNumber.split, numeral]

theorem number?_eq_none_iff :
    number? word = none ↔ ∀ negative digits, ¬ IsNumber word negative digits := by
  constructor
  · intro none negative digits isNumber
    rw [number?_eq_some_iff.mpr isNumber] at none
    cases none
  · intro other
    cases found : number? word with
    | none => rfl
    | some command =>
      obtain ⟨negative, digits, rfl⟩ := number?_eq_some found
      exact absurd (number?_eq_some_iff.mp found) (other negative digits)

theorem read_number (names : vars.names = variableNames)
    (isNumber : IsNumber word negative digits) (words : List String) :
    read vars word words = .ok (.number negative digits) := by
  obtain ⟨c, member, digit⟩ := isNumber.digit
  have inside : c ∈ word.toList := by
    rw [isNumber.spelled]
    cases negative <;> simp [member]
  simp only [read, instruction?_of_digit names inside digit, number?_eq_some_iff.mpr isNumber]

end Numbers

theorem read_key (names : vars.names = variableNames) (listed : key ∈ keys) (words : List String) :
    read vars key words = ofKey key words := by
  have unreserved : ∀ key ∈ keys, key ∉ reserved := by decide
  have unnumbered : ∀ key ∈ keys, number? key = none := by decide
  have unnamed := (instruction?_eq_none_iff names).mpr (unreserved key listed)
  simp only [read, unnamed, unnumbered key listed]

theorem mem_vocabulary : word ∈ vocabulary ↔ word ∈ reserved ∨ word ∈ keys := by
  have known : ∀ word ∈ reserved ++ keys, word ∈ vocabulary := by decide
  have listed : ∀ word ∈ vocabulary, word ∈ reserved ++ keys := by decide
  rw [← List.mem_append]
  exact ⟨listed word, known word⟩

theorem mem_vocabulary_of_listed (listed : word ∈ Function.names ∨ word ∈ keywords) :
    word ∈ vocabulary := by
  simp only [vocabulary, List.mem_append]
  rcases listed with function | keyword
  · exact .inl (.inl (.inr function))
  · exact .inl (.inr keyword)

theorem isWord_of_listed (listed : word ∈ Function.names ∨ word ∈ keywords) : IsWord word := by
  have given : ∀ word ∈ Function.names ++ keywords, word ≠ "" := by decide
  have solid : ∀ word ∈ Function.names ++ keywords,
      word.toList.all (!isWhiteSpace ·) = true := by decide
  have inside := List.mem_append.mpr listed
  refine ⟨given word inside, fun c member => ?_⟩
  simpa using List.all_eq_true.mp (solid word inside) c member

theorem read_eq_unknownKey (names : vars.names = variableNames) (words : List String) :
    read vars key words = .error (.unknownKey word) ↔
      word = key ∧ key ∉ vocabulary ∧ ∀ negative digits, ¬ IsNumber key negative digits := by
  rw [mem_vocabulary, not_or, ← number?_eq_none_iff, ← instruction?_eq_none_iff names]
  constructor
  · intro unread
    have cause := read_refuses vars key words _ unread
    unfold read at unread
    cases cause with
    | unknownKey unlisted =>
      split at unread
      · cases unread
      · next unnamed =>
        split at unread
        · cases unread
        · next unnumbered => exact ⟨rfl, ⟨unnamed, unlisted⟩, unnumbered⟩
  · rintro ⟨rfl, ⟨unnamed, unlisted⟩, unnumbered⟩
    simp only [read, unnamed, unnumbered, ofKey_of_unlisted unlisted]

-- The other messages differ from it in one of their first two letters.
theorem Cause.eq_of_message {given : List String} (cause : Cause key given refusal)
    (same : refusal.message = (Refusal.unknownKey word).message) : refusal = .unknownKey word := by
  cases cause with
  | unknownKey unlisted =>
    have quoted : "unknown key '" ++ key ++ "'" = "unknown key '" ++ word ++ "'" := same
    rw [String.append_left_inj, String.append_right_inj] at quoted
    rw [quoted]
  | usage text listed =>
    have shown : "usage: " ++ text = "unknown key '" ++ word ++ "'" := same
    have second := congrArg (·.toList[1]?) shown
    simp [String.toList_append] at second
  | notANumber other member =>
    have shown : "'" ++ other ++ "' is not a number" = "unknown key '" ++ word ++ "'" := same
    have first := congrArg (·.toList.head?) shown
    simp [String.toList_append] at first
  | noSlider name member =>
    have shown : "no slider named '" ++ name ++ "'" = "unknown key '" ++ word ++ "'" := same
    have first := congrArg (·.toList.head?) shown
    simp [String.toList_append] at first

section Completion

variable {start : String} {list : List String}

theorem mem_offered :
    word ∈ (Function.names ++ keywords).filter (·.startsWith start) ↔
      (word ∈ Function.names ∨ word ∈ keywords) ∧ start.toList <+: word.toList := by
  rw [List.mem_filter, List.mem_append, String.startsWith_string_iff]

theorem complete_eq_none_iff :
    complete start = none ↔
      ∀ word, word ∈ Function.names ∨ word ∈ keywords → ¬ start.toList <+: word.toList := by
  have offered : complete start = none ↔
      (Function.names ++ keywords).filter (·.startsWith start) = [] := by
    unfold complete
    split <;> simp_all
  rw [offered, List.eq_nil_iff_forall_not_mem]
  simp only [mem_offered, not_and]

theorem complete_eq_some (completed : complete start = some list) :
    list = (Function.names ++ keywords).filter (·.startsWith start) := by
  unfold complete at completed
  split at completed
  · cases completed
  · exact (Option.some.inj completed).symm

end Completion

end Command

namespace Session

variable {settings : Settings} {s : Session} {key word text : String} {rest : List String}

theorem attempt_eq_unknownKey :
    s.attempt key rest = .error (.unknownKey word) ↔
      Command.read s.vars key rest = .error (.unknownKey word) := by
  rw [attempt_eq_error]
  refine ⟨?_, .inl⟩
  rintro (unread | ⟨command, reads, refused⟩)
  · exact unread
  · have applied := s.apply_applied (Command.isProper_of_read reads)
    rw [refused] at applied
    cases applied

theorem enterWords_keyed {command : Command} {t : Session} {notices : List Notice}
    (names : s.vars.names = Command.variableNames) (listed : key ∈ Command.keys)
    (means : Command.ofKey key rest = .ok command)
    (applied : s.apply command = .ok ⟨t, .redraw, notices⟩) :
    s.enterWords 0 (key :: rest) = (t.enterWords command.argumentCount rest).after notices :=
  enterWords_next (attempt_eq_ok.mpr ⟨(Command.read_key names listed rest).trans means, applied⟩)

-- A word that goes on to a redraw has nothing after it.
theorem event_alone (s : Session) (key : String) :
    (s.enterWords 0 [key]).event = (s.answer key []).event := by
  by_cases ended : (s.answer key []).event = .redraw
  · cases attempted : s.attempt key [] with
    | error refusal => simp [answer, attempted, refuse] at ended
    | ok pair =>
      obtain ⟨command, t, event, notices⟩ := pair
      obtain rfl : event = .redraw := by simpa [answer, attempted] using ended
      rw [enterWords_next attempted, enterWords_nil, ended]
      rfl
  · rw [enterWords_last ended]

theorem unknown_iff (names : s.vars.names = Command.variableNames) (isWord : IsWord word) :
    (s.enter word).event = .message ("Error: unknown key '" ++ word ++ "'") ↔
      word ∉ Command.vocabulary ∧ ∀ negative digits, ¬ Command.IsNumber word negative digits := by
  have message : "Error: unknown key '" ++ word ++ "'" =
      "Error: " ++ (Refusal.unknownKey word).message := by
    have start : "Error: unknown key '" = "Error: " ++ "unknown key '" := rfl
    change _ = "Error: " ++ ("unknown key '" ++ word ++ "'")
    rw [start]
    simp only [String.append_assoc]
  have read : Command.read s.vars word [] = .error (.unknownKey word) ↔ _ :=
    Command.read_eq_unknownKey names []
  rw [enter_eq, words_of_isWord isWord, event_alone, message]
  constructor
  · intro shown
    obtain ⟨refusal, refused, same⟩ := attempt_of_message shown
    have cause := s.attempt_refuses word [] refusal refused
    rw [cause.eq_of_message (String.append_right_inj _ |>.mp same.symm)] at refused
    exact (read.mp (attempt_eq_unknownKey.mp refused)).2
  · intro unknown
    have refused := attempt_eq_unknownKey.mpr (read.mpr ⟨rfl, unknown⟩)
    simp only [answer, refused, refuse]

theorem vocabulary_accepted :
    (∀ (settings : Settings) (s : Session), Reachable settings s → ∀ word, IsWord word →
      ((s.enter word).event = .message ("Error: unknown key '" ++ word ++ "'") ↔
        word ∉ ["+", "-", "*", "/", "^"] ∧ word ∉ Function.names ∧ word ∉ Command.keywords ∧
          word ≠ "exit" ∧ word ∉ ["x", "a", "b", "c", "d"] ∧
          ∀ negative digits, ¬ Command.IsNumber word negative digits)) ∧
    ∀ start : String,
      (Command.complete start = none ↔
        ∀ word, word ∈ Function.names ∨ word ∈ Command.keywords →
          ¬ start.toList <+: word.toList) ∧
      ∀ list, Command.complete start = some list →
        list.Nodup ∧
        (∀ word, word ∈ list ↔
          (word ∈ Function.names ∨ word ∈ Command.keywords) ∧ start.toList <+: word.toList) ∧
        ∀ (settings : Settings) (s : Session), Reachable settings s → ∀ word ∈ list,
          (s.enter word).event ≠ .message ("Error: unknown key '" ++ word ++ "'") := by
  refine ⟨?_, fun start => ⟨Command.complete_eq_none_iff, ?_⟩⟩
  · intro settings s reachable word isWord
    rw [unknown_iff reachable.wellFormed.names isWord]
    simp only [Command.vocabulary, Command.variableNames, List.mem_append, List.mem_cons, not_or,
      and_assoc]
  · intro list completed
    obtain rfl := Command.complete_eq_some completed
    refine ⟨?_, fun word => Command.mem_offered, ?_⟩
    · have distinct : (Function.names ++ Command.keywords).Nodup := by decide
      exact distinct.filter _
    · intro settings s reachable word offered shown
      have listed := (Command.mem_offered.mp offered).1
      have isWord : IsWord word := Command.isWord_of_listed listed
      have unknown := ((unknown_iff reachable.wellFormed.names isWord).mp shown).1
      exact unknown (Command.mem_vocabulary_of_listed listed)

-- `cosh` has no key, and `-.5` has digits enough.
theorem cosh_unknown :
    ((new .default).enter "cosh").event = .message "Error: unknown key 'cosh'" ∧
      ((new .default).enter "-.5").event ≠ .message "Error: unknown key '-.5'" ∧
      Command.complete "c" = some ["cos", "clear", "cursor"] ∧
      ∀ word ∈ ["cos", "clear", "cursor"],
        ((new .default).enter word).event ≠ .message ("Error: unknown key '" ++ word ++ "'") := by
  obtain ⟨unknown, completions⟩ := vocabulary_accepted
  have start : Reachable .default (new .default) := .new
  have isWord : ∀ word ∈ words "cosh -.5", IsWord word := fun _ => isWord_of_mem_words
  have unnumbered := Command.number?_eq_none_iff.mp (show Command.number? "cosh" = none by decide)
  have half : Command.IsNumber "-.5" true ['.', '5'] := Command.number?_eq_some_iff.mp rfl
  have completed : Command.complete "c" = some ["cos", "clear", "cursor"] := by decide +kernel
  refine ⟨?_, ?_, completed, ((completions "c").2 _ completed).2.2 _ _ start⟩
  · exact (unknown _ _ start "cosh" (isWord _ (by decide))).mpr ⟨by decide, by decide, by decide,
      by decide, by decide, unnumbered⟩
  · intro shown
    obtain ⟨-, -, -, -, -, other⟩ := (unknown _ _ start "-.5" (isWord _ (by decide))).mp shown
    exact other true _ half

end Session

end PolishPlotter
