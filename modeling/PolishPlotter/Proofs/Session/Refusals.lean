import PolishPlotter.Proofs.Session.Effects
import PolishPlotter.Proofs.Session.Line

set_option autoImplicit false

namespace PolishPlotter

open Machine

namespace Command

def usages : List String :=
  ["pan DX DY", "stick DX DY", "set NAME VALUE", "range NAME MIN MAX", "min NAME", "max NAME",
    "reset NAME", "cursor DX DY"]

/-- What a command can be refused for that starts with `key`, with the words `given` after it. -/
inductive Cause (key : String) (given : List String) : Refusal → Prop
  | unknownKey (unlisted : key ∉ keys) : Cause key given (.unknownKey key)
  | usage (text : String) (listed : text ∈ usages) : Cause key given (.usage text)
  | notANumber (word : String) (member : word ∈ given) : Cause key given (.notANumber word)
  | noSlider (name : String) (member : name ∈ given) : Cause key given (.noSlider name)

def Refuses {α : Type} (key : String) (given : List String) (m : Except Refusal α) : Prop :=
  ∀ refusal, m = .error refusal → Cause key given refusal

section Refuses

variable {α β : Type} {key usage w : String} {given words back : List String} {x : Float}

@[simp] theorem refuses_ok (a : α) : Refuses key given (.ok a) := nofun

@[simp] theorem refuses_error (refusal : Refusal) :
    Refuses key given (.error refusal : Except Refusal α) ↔ Cause key given refusal := by
  simp [Refuses]

theorem refuses_bind {m : Except Refusal α} {f : α → Except Refusal β} (first : Refuses key given m)
    (later : ∀ a, m = .ok a → Refuses key given (f a)) : Refuses key given (m >>= f) := by
  cases m with
  | ok a => exact later a rfl
  | error refusal =>
    rw [refuses_error] at first
    exact (refuses_error refusal).mpr first

theorem refuses_word (listed : usage ∈ usages) (words : List String) :
    Refuses key given (word usage words) := by
  cases words with
  | nil => exact (refuses_error _).mpr (.usage usage listed)
  | cons w rest => exact refuses_ok _

theorem refuses_numberOf (member : w ∈ given) : Refuses key given (numberOf w) := by
  unfold numberOf
  split
  · exact refuses_ok _
  · exact (refuses_error _).mpr (.notANumber w member)

theorem subset_of_word (done : word usage words = .ok (w, back)) (inside : words ⊆ given) :
    w ∈ given ∧ back ⊆ given := by
  obtain rfl := word_eq_ok.mp done
  exact List.cons_subset.mp inside

theorem refuses_argument (listed : usage ∈ usages) (inside : words ⊆ given) :
    Refuses key given (argument usage words) :=
  refuses_bind (refuses_word listed words) fun _ done =>
    refuses_bind (refuses_numberOf (subset_of_word done inside).1) fun _ _ => refuses_ok _

theorem subset_of_argument (done : argument usage words = .ok (x, back)) (inside : words ⊆ given) :
    back ⊆ given := by
  obtain ⟨a, rfl, -⟩ := argument_eq_ok.mp done
  exact (List.cons_subset.mp inside).2

theorem refuses_pair (make : Float → Float → Command) (listed : usage ∈ usages)
    (words : List String) : Refuses key words (pair make usage words) :=
  refuses_bind (refuses_argument listed (List.Subset.refl words)) fun _ first =>
    refuses_bind (refuses_argument listed (subset_of_argument first (List.Subset.refl words)))
      fun _ _ => refuses_ok _

theorem refuses_named (make : String → Command) (listed : usage ∈ usages)
    (words : List String) : Refuses key words (named make usage words) :=
  refuses_bind (refuses_word listed words) fun _ _ => refuses_ok _

theorem refuses_setting (words : List String) : Refuses key words (setting words) := by
  have listed : "set NAME VALUE" ∈ usages := by decide
  exact refuses_bind (refuses_word listed words) fun _ name =>
    refuses_bind (refuses_argument listed (subset_of_word name (List.Subset.refl words)).2)
      fun _ _ => refuses_ok _

theorem refuses_ranging (words : List String) : Refuses key words (ranging words) := by
  have listed : "range NAME MIN MAX" ∈ usages := by decide
  refine refuses_bind (refuses_word listed words) fun _ name => ?_
  have after := (subset_of_word name (List.Subset.refl words)).2
  exact refuses_bind (refuses_argument listed after) fun _ min =>
    refuses_bind (refuses_argument listed (subset_of_argument min after)) fun _ _ => refuses_ok _

theorem refuses_tracing (words : List String) : Refuses key words (tracing words) := by
  cases words with
  | nil => exact refuses_ok _
  | cons w rest =>
    exact refuses_bind (refuses_numberOf List.mem_cons_self) fun _ _ => refuses_ok _

end Refuses

variable {vars : Vars} {command : Command} {key name : String} {words : List String}
  {refusal : Refusal}

theorem ofKey_refuses (key : String) (words : List String) : Refuses key words (ofKey key words) := by
  by_cases listed : key ∈ keys
  · have each : ∀ word ∈ keys, Refuses word words (ofKey word words) := by
      simp (disch := decide) [keys, ofKey, refuses_pair, refuses_named, refuses_setting,
        refuses_ranging, refuses_tracing]
    exact each key listed
  · rw [ofKey_of_unlisted listed]
    exact (refuses_error _).mpr (.unknownKey listed)

theorem read_refuses (vars : Vars) (key : String) (words : List String) :
    Refuses key words (read vars key words) := by
  unfold read
  split
  · exact refuses_ok _
  · split
    · exact refuses_ok _
    · exact ofKey_refuses key words

theorem slider_mem_of_read (reads : read vars key words = .ok command)
    (named : command.slider? = some name) : name ∈ words := by
  cases read_eq_ok reads with
  | add | number => cases named
  | keyed other rest readOff =>
    obtain ⟨args, later, rfl, spelled, -⟩ := readOff
    refine List.mem_append_left _ ?_
    cases spelled with
    | set | range | minimum | maximum | reset =>
      cases named
      exact List.mem_cons_self
    | _ => cases named

theorem Cause.newline_not_mem_message (cause : Cause key words refusal)
    (whole : ∀ w ∈ key :: words, '\n' ∉ w.toList) : '\n' ∉ refusal.message.toList := by
  obtain ⟨first, later⟩ := List.forall_mem_cons.mp whole
  have around {w : String} (front back : String) (inside : '\n' ∉ w.toList)
      (outside : '\n' ∉ front.toList ++ back.toList) : '\n' ∉ (front ++ w ++ back).toList := by
    simp only [String.toList_append, List.mem_append, not_or] at outside ⊢
    exact ⟨⟨outside.1, inside⟩, outside.2⟩
  cases cause with
  | unknownKey unlisted => exact around "unknown key '" "'" first (by decide)
  | usage text listed =>
    have all : ∀ text ∈ usages, '\n' ∉ ("usage: " ++ text).toList := by decide
    exact all text listed
  | notANumber word member => exact around "'" "' is not a number" (later word member) (by decide)
  | noSlider name member => exact around "no slider named '" "'" (later name member) (by decide)

theorem Cause.ne_failed (cause : Cause key words refusal) (e : Error) : refusal ≠ .failed e := by
  rintro rfl
  cases cause

end Command

theorem Session.attempt_refuses (s : Session) (key : String) (words : List String) :
    Command.Refuses key words (s.attempt key words) := by
  intro refusal failed
  rcases attempt_eq_error.mp failed with unread | ⟨command, reads, refused⟩
  · exact Command.read_refuses s.vars key words refusal unread
  · have applied := s.apply_applied (Command.isProper_of_read reads)
    rw [refused] at applied
    cases applied with
    | missing named => exact .noSlider _ (Command.slider_mem_of_read reads named)

end PolishPlotter
