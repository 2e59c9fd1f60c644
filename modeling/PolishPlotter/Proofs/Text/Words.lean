import PolishPlotter.Text.Blank

set_option autoImplicit false

namespace PolishPlotter

structure IsWord (word : String) : Prop where
  given : word ≠ ""
  solid : ∀ c ∈ word.toList, isWhiteSpace c = false

def wordsBetween (pieces : List (List Char)) : List String :=
  (pieces.filter (!·.isEmpty)).map .ofList

variable {line word : String} {c : Char} {before rest : List Char}

theorem isWhiteSpace_of_visible (low : 0x20 < c.toNat) (high : c.toNat < 0x7F) :
    isWhiteSpace c = false := by
  simp only [isWhiteSpace, Bool.or_eq_false_iff, Bool.and_eq_false_iff, decide_eq_false_iff_not]
  omega

theorem wordsFrom_blank (blank : isWhiteSpace c = true) :
    wordsFrom before (c :: rest) = wordsFrom before [] ++ wordsFrom [] rest := by
  cases before <;> simp [wordsFrom, blank]

theorem wordsFrom_solid (solid : isWhiteSpace c = false) :
    wordsFrom before (c :: rest) = wordsFrom (c :: before) rest := by
  simp [wordsFrom, solid]

-- The word being read is the piece that has not ended yet.
theorem wordsFrom_eq_wordsBetween (before rest : List Char) :
    wordsFrom before rest = wordsBetween (rest.splitOnPPrepend isWhiteSpace before) := by
  induction rest generalizing before with
  | nil => cases before <;> simp [wordsFrom, wordsBetween, List.splitOnPPrepend]
  | cons c rest ih =>
    cases blank : isWhiteSpace c with
    | true =>
      rw [wordsFrom_blank blank, ih, List.splitOnPPrepend_cons_eq_if, if_pos blank]
      cases before <;> simp [wordsFrom, wordsBetween]
    | false =>
      rw [wordsFrom_solid blank, ih]
      simp [List.splitOnPPrepend_cons_eq_if, blank]

theorem words_eq_wordsBetween (line : String) :
    words line = wordsBetween (line.toList.splitOnP isWhiteSpace) := by
  rw [words, wordsFrom_eq_wordsBetween, List.splitOnPPrepend_nil_right]

theorem words_append_space (front back : String) :
    words (front ++ " " ++ back) = words front ++ words back := by
  have blank : isWhiteSpace ' ' = true := rfl
  simp [words_eq_wordsBetween, List.splitOnP_append_cons, blank, wordsBetween]

theorem words_of_isWord (isWord : IsWord word) : words word = [word] := by
  have given : word.toList ≠ [] := by simpa using isWord.given
  rw [words_eq_wordsBetween, List.splitOnP_eq_singleton isWord.solid]
  simp [wordsBetween, given]

theorem isWord_of_mem_last (solid : ∀ c ∈ before, isWhiteSpace c = false)
    (member : word ∈ wordsFrom before []) : IsWord word := by
  cases before with
  | nil => cases member
  | cons c before =>
    obtain rfl := List.mem_singleton.mp member
    refine ⟨by simp, ?_⟩
    intro d inside
    rw [String.toList_ofList] at inside
    exact solid d (List.mem_reverse.mp inside)

theorem isWord_of_mem_wordsFrom (solid : ∀ c ∈ before, isWhiteSpace c = false)
    (member : word ∈ wordsFrom before rest) : IsWord word := by
  induction rest generalizing before with
  | nil => exact isWord_of_mem_last solid member
  | cons c rest ih =>
    cases blank : isWhiteSpace c with
    | true =>
      rw [wordsFrom_blank blank, List.mem_append] at member
      rcases member with first | later
      · exact isWord_of_mem_last solid first
      · exact ih (by simp) later
    | false =>
      rw [wordsFrom_solid blank] at member
      exact ih (by simpa [blank] using solid) member

theorem isWord_of_mem_words (member : word ∈ words line) : IsWord word :=
  isWord_of_mem_wordsFrom (by simp) member

theorem words_intercalate {list : List String} (all : ∀ word ∈ list, IsWord word) :
    words (" ".intercalate list) = list := by
  induction list with
  | nil => rfl
  | cons word rest ih =>
    have first := words_of_isWord (all word List.mem_cons_self)
    have later := ih fun other member => all other (List.mem_cons_of_mem _ member)
    cases rest with
    | nil => simpa using first
    | cons next rest =>
      rw [String.intercalate_cons_cons, words_append_space, first, later]
      rfl

end PolishPlotter
