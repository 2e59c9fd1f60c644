set_option autoImplicit false

namespace PolishPlotter

def isWhiteSpace (c : Char) : Bool :=
  let n := c.toNat
  (0x09 ≤ n && n ≤ 0x0D) || n = 0x20 || n = 0x85 || n = 0xA0 || n = 0x1680 ||
    (0x2000 ≤ n && n ≤ 0x200A) || n = 0x2028 || n = 0x2029 || n = 0x202F || n = 0x205F ||
    n = 0x3000

theorem isWhiteSpace_of_isWhitespace {c : Char} (h : c.isWhitespace) : isWhiteSpace c := by
  simp only [Char.isWhitespace, Bool.or_eq_true, decide_eq_true_eq] at h
  rcases h with ((rfl | rfl) | rfl) | rfl <;> rfl

/-- The words of a text, where `word` holds the characters right before it, last first. -/
def wordsFrom : List Char → List Char → List String
  | word, [] => if word.isEmpty then [] else [.ofList word.reverse]
  | word, c :: rest =>
    if isWhiteSpace c then
      if word.isEmpty then wordsFrom [] rest else .ofList word.reverse :: wordsFrom [] rest
    else wordsFrom (c :: word) rest

def words (line : String) : List String := wordsFrom [] line.toList

def isBlankLine (line : String) : Bool := line.toList.all isWhiteSpace

end PolishPlotter
