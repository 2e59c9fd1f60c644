import PolishPlotter.Json.Record
import PolishPlotter.Proofs.Text.Octets

set_option autoImplicit false

namespace PolishPlotter.Json

structure Gap where
  chars : List Char
  blank : ∀ c ∈ chars, isBlank c = true

structure Padded where
  before : Gap
  text : List Char
  after : Gap

structure Pair where
  before : Gap
  name : List Char
  between : Gap
  value : Padded

def Padded.chars (p : Padded) : List Char := p.before.chars ++ (p.text ++ p.after.chars)

def Pair.chars (p : Pair) : List Char :=
  p.before.chars ++ '"' :: (p.name ++ '"' :: (p.between.chars ++ ':' :: p.value.chars))

def bracketed (opening closing : Char) (inner : Gap) : List (List Char) → List Char
  | [] => opening :: (inner.chars ++ [closing])
  | first :: rest => opening :: (first ++ (rest.flatMap (',' :: ·) ++ [closing]))

def listText (inner : Gap) (items : List Padded) : List Char :=
  bracketed '[' ']' inner (items.map Padded.chars)

def objectText (inner : Gap) (pairs : List Pair) : List Char :=
  bracketed '\x7b' '\x7d' inner (pairs.map Pair.chars)

section Strings

structure Plain (c : Char) : Prop where
  visible : isControl c = false
  quote : c ≠ '"'
  backslash : c ≠ '\\'

inductive Hex : List Char → Nat → Prop
  | four {a b c d : Char} {i j k l : Nat} (first : hexDigit? a = some i)
      (second : hexDigit? b = some j) (third : hexDigit? c = some k)
      (fourth : hexDigit? d = some l) : Hex [a, b, c, d] (((i * 16 + j) * 16 + k) * 16 + l)

inductive Body : List Char → Prop
  | nil : Body []
  | plain {c : Char} {rest : List Char} (plain : Plain c) (more : Body rest) : Body (c :: rest)
  | escape {c : Char} {rest : List Char} (known : (controlEscape? c).isSome = true)
      (more : Body rest) : Body ('\\' :: c :: rest)
  | unit {digits rest : List Char} {n : Nat} (hex : Hex digits n) (more : Body rest) :
      Body ('\\' :: 'u' :: (digits ++ rest))

/-- The ways to write a text between quotes. -/
inductive Spells : List Char → List Char → Prop
  | nil : Spells [] []
  | plain {c : Char} {name rest : List Char} (plain : Plain c) (more : Spells name rest) :
      Spells (c :: name) (c :: rest)
  | escape {c e : Char} {name rest : List Char} (known : controlEscape? e = some c)
      (more : Spells name rest) : Spells (c :: name) ('\\' :: e :: rest)
  | unit {c : Char} {digits name rest : List Char} (hex : Hex digits c.toNat)
      (more : Spells name rest) : Spells (c :: name) ('\\' :: 'u' :: (digits ++ rest))
  | pair {c : Char} {high low name rest : List Char} {h l : Nat} (upper : Hex high (0xD800 + h))
      (lower : Hex low (0xDC00 + l)) (highest : h < 0x400) (lowest : l < 0x400)
      (whole : c.toNat = 0x10000 + h * 0x400 + l) (more : Spells name rest) :
      Spells (c :: name) ('\\' :: 'u' :: (high ++ '\\' :: 'u' :: (low ++ rest)))

theorem Spells.body {name spelling : List Char} (spells : Spells name spelling) :
    Body spelling := by
  induction spells with
  | nil => exact .nil
  | plain plain _ ih => exact .plain plain ih
  | escape known _ ih => exact .escape (by rw [known]; rfl) ih
  | unit hex _ ih => exact .unit hex ih
  | pair upper lower _ _ _ _ ih => exact .unit upper (.unit lower ih)

theorem exists_hexDigit {n : Nat} (small : n < 16) : ∃ c, hexDigit? c = some n := by
  have digits : ∀ i : Fin 16, hexDigit? "0123456789abcdef".toList[i] = some i.val := by decide
  exact ⟨_, digits ⟨n, small⟩⟩

theorem exists_hex {n : Nat} (small : n < 0x10000) : ∃ digits, Hex digits n := by
  obtain ⟨a, first⟩ := exists_hexDigit (by omega : n / 4096 < 16)
  obtain ⟨b, second⟩ := exists_hexDigit (by omega : n / 256 % 16 < 16)
  obtain ⟨c, third⟩ := exists_hexDigit (by omega : n / 16 % 16 < 16)
  obtain ⟨d, fourth⟩ := exists_hexDigit (by omega : n % 16 < 16)
  have whole : ((n / 4096 * 16 + n / 256 % 16) * 16 + n / 16 % 16) * 16 + n % 16 = n := by omega
  have digits := Hex.four first second third fourth
  rw [whole] at digits
  exact ⟨_, digits⟩

theorem exists_spelling (name : List Char) : ∃ spelling, Spells name spelling := by
  induction name with
  | nil => exact ⟨_, .nil⟩
  | cons c name ih =>
    obtain ⟨spelling, spells⟩ := ih
    by_cases small : c.toNat < 0x10000
    · obtain ⟨digits, hex⟩ := exists_hex small
      exact ⟨_, .unit hex spells⟩
    · refine ⟨_, .plain ⟨?_, ?_, ?_⟩ spells⟩
      · rw [isControl, decide_eq_false_iff_not]
        omega
      · rintro rfl
        exact small (by decide)
      · rintro rfl
        exact small (by decide)

end Strings

section Numbers

structure Digits (ds : List Char) : Prop where
  nonempty : ds ≠ []
  digits : ∀ d ∈ ds, d.isDigit = true

inductive Whole : List Char → Prop
  | zero : Whole ['0']
  | digits {ds : List Char} (digits : Digits ds) (leading : ds.head? ≠ some '0') : Whole ds

inductive Fraction : List Char → Prop
  | none : Fraction []
  | digits {ds : List Char} (digits : Digits ds) : Fraction ('.' :: ds)

inductive Exponent : List Char → Prop
  | none : Exponent []
  | digits {mark : Char} {sign ds : List Char} (marks : Decimal.isExponentMark mark = true)
      (signs : sign ∈ [[], ['-'], ['+']]) (digits : Digits ds) : Exponent (mark :: (sign ++ ds))

inductive Amount : List Char → Prop
  | parts {whole fraction exponent : List Char} (first : Whole whole) (second : Fraction fraction)
      (third : Exponent exponent) : Amount (whole ++ (fraction ++ exponent))

end Numbers

inductive WellFormed : List Char → Prop
  | null : WellFormed ['n', 'u', 'l', 'l']
  | true : WellFormed ['t', 'r', 'u', 'e']
  | false : WellFormed ['f', 'a', 'l', 's', 'e']
  | positive {amount : List Char} (number : Amount amount) : WellFormed amount
  | negative {amount : List Char} (number : Amount amount) : WellFormed ('-' :: amount)
  | string {body : List Char} (string : Body body) : WellFormed ('"' :: (body ++ ['"']))
  | list (inner : Gap) {items : List Padded} (each : ∀ item ∈ items, WellFormed item.text) :
      WellFormed (listText inner items)
  | object (inner : Gap) {pairs : List Pair} (names : ∀ pair ∈ pairs, Body pair.name)
      (each : ∀ pair ∈ pairs, WellFormed pair.value.text) : WellFormed (objectText inner pairs)

section Octets

variable {c : Char} {digits body name spelling : List Char} {n : Nat}

theorem isAscii_of_isBlank (blank : isBlank c = true) : IsAscii c := by
  simp only [isBlank, Bool.or_eq_true, decide_eq_true_eq] at blank
  rcases blank with ((rfl | rfl) | rfl) | rfl <;> decide

theorem isAscii_of_isDigit (digit : c.isDigit = true) : IsAscii c :=
  Nat.lt_of_le_of_lt (Char.isDigit_iff_toNat.mp digit).2 (by decide)

theorem isAscii_of_hexDigit? (hex : hexDigit? c = some n) : IsAscii c := by
  rw [hexDigit?] at hex
  split_ifs at hex with digit lower upper
  · exact isAscii_of_isDigit digit
  · exact Nat.lt_of_le_of_lt lower.2 (by decide)
  · exact Nat.lt_of_le_of_lt upper.2 (by decide)

theorem isAscii_of_controlEscape? (known : (controlEscape? c).isSome = true) : IsAscii c := by
  unfold controlEscape? at known
  split at known <;> first | decide | cases known

theorem Gap.octets (gap : Gap) : gap.chars.flatMap octetsOf = gap.chars :=
  octets_of_isAscii fun c member => isAscii_of_isBlank (gap.blank c member)

theorem Hex.octets (hex : Hex digits n) : digits.flatMap octetsOf = digits := by
  cases hex with
  | four first second third fourth =>
    refine octets_of_isAscii ?_
    simp only [List.forall_mem_cons]
    exact ⟨isAscii_of_hexDigit? first, isAscii_of_hexDigit? second, isAscii_of_hexDigit? third,
      isAscii_of_hexDigit? fourth, List.forall_mem_nil _⟩

theorem plain_of_not_isAscii (beyond : ¬ IsAscii c) : Plain c where
  visible := by
    simp only [isControl, IsAscii, decide_eq_false_iff_not] at beyond ⊢
    omega
  quote := by
    rintro rfl
    exact beyond (by decide)
  backslash := by
    rintro rfl
    exact beyond (by decide)

theorem Plain.octets (plain : Plain c) : ∀ o ∈ octetsOf c, Plain o := by
  intro o member
  by_cases ascii : IsAscii c
  · rw [octetsOf_of_isAscii ascii, List.mem_singleton] at member
    rwa [member]
  · exact plain_of_not_isAscii (not_isAscii_of_mem_octetsOf ascii member)

theorem Body.append_plain {front : List Char} (plain : ∀ c ∈ front, Plain c) (more : Body body) :
    Body (front ++ body) := by
  induction front with
  | nil => exact more
  | cons c rest ih =>
    obtain ⟨first, later⟩ := List.forall_mem_cons.mp plain
    exact .plain first (ih later)

theorem Body.octets (string : Body body) : Body (body.flatMap octetsOf) := by
  induction string with
  | nil => exact .nil
  | plain plain _ ih => exact .append_plain plain.octets ih
  | escape known _ ih =>
    rw [octets_cons (by decide), octets_cons (isAscii_of_controlEscape? known)]
    exact .escape known ih
  | unit hex _ ih =>
    rw [octets_cons (by decide), octets_cons (by decide), List.flatMap_append, hex.octets]
    exact .unit hex ih

theorem Amount.isAscii {amount : List Char} (number : Amount amount) : ∀ c ∈ amount, IsAscii c := by
  obtain ⟨first, second, third⟩ := number
  simp only [List.forall_mem_append]
  refine ⟨?_, ?_, ?_⟩
  · cases first with
    | zero => simp [IsAscii]
    | digits digits => exact fun c member => isAscii_of_isDigit (digits.digits c member)
  · cases second with
    | none => exact List.forall_mem_nil _
    | digits digits =>
      rw [List.forall_mem_cons]
      exact ⟨by decide, fun c member => isAscii_of_isDigit (digits.digits c member)⟩
  · cases third with
    | none => exact List.forall_mem_nil _
    | digits marks signs digits =>
      rw [List.forall_mem_cons, List.forall_mem_append]
      refine ⟨?_, ?_, fun c member => isAscii_of_isDigit (digits.digits c member)⟩
      · simp only [Decimal.isExponentMark, Bool.or_eq_true, decide_eq_true_eq] at marks
        rcases marks with rfl | rfl <;> decide
      · simp only [List.mem_cons, List.not_mem_nil, or_false] at signs
        rcases signs with rfl | rfl | rfl <;> simp [IsAscii]

def Padded.octets (p : Padded) : Padded := ⟨p.before, p.text.flatMap octetsOf, p.after⟩

def Pair.octets (p : Pair) : Pair :=
  ⟨p.before, p.name.flatMap octetsOf, p.between, p.value.octets⟩

theorem Padded.octets_chars (p : Padded) : p.chars.flatMap octetsOf = p.octets.chars := by
  simp only [chars, octets, List.flatMap_append, Gap.octets]

theorem Pair.octets_chars (p : Pair) : p.chars.flatMap octetsOf = p.octets.chars := by
  have quote : IsAscii '"' := by decide
  have colon : IsAscii ':' := by decide
  simp only [chars, octets, List.flatMap_append, Gap.octets, octets_cons quote,
    octets_cons colon, Padded.octets_chars]

theorem octets_bracketed {opening closing : Char} (left : IsAscii opening)
    (right : IsAscii closing) (inner : Gap) (parts : List (List Char)) :
    (bracketed opening closing inner parts).flatMap octetsOf =
      bracketed opening closing inner (parts.map (List.flatMap octetsOf)) := by
  have comma : IsAscii ',' := by decide
  cases parts with
  | nil =>
    simp only [bracketed, List.map_nil, octets_cons left, List.flatMap_append, Gap.octets,
      octets_cons right, List.flatMap_nil]
  | cons first rest =>
    simp only [bracketed, List.map_cons, octets_cons left, List.flatMap_append,
      octets_cons right, List.flatMap_nil, List.flatMap_assoc, octets_cons comma, List.flatMap_map]

theorem octets_listText (inner : Gap) (items : List Padded) :
    (listText inner items).flatMap octetsOf = listText inner (items.map Padded.octets) := by
  rw [listText, octets_bracketed (by decide) (by decide), listText, List.map_map, List.map_map]
  congr 1
  exact List.map_congr_left fun p _ => p.octets_chars

theorem octets_objectText (inner : Gap) (pairs : List Pair) :
    (objectText inner pairs).flatMap octetsOf = objectText inner (pairs.map Pair.octets) := by
  rw [objectText, octets_bracketed (by decide) (by decide), objectText, List.map_map, List.map_map]
  congr 1
  exact List.map_congr_left fun p _ => p.octets_chars

theorem WellFormed.octets {v : List Char} (wellFormed : WellFormed v) :
    WellFormed (v.flatMap octetsOf) := by
  induction wellFormed with
  | null | true | false =>
    rw [octets_of_isAscii (by simp [IsAscii])]
    constructor
  | positive number =>
    rw [octets_of_isAscii number.isAscii]
    exact .positive number
  | negative number =>
    rw [octets_cons (by decide), octets_of_isAscii number.isAscii]
    exact .negative number
  | string string =>
    rw [octets_cons (by decide), List.flatMap_append]
    exact .string string.octets
  | list inner _ ih =>
    rw [octets_listText]
    refine .list inner ?_
    rw [List.forall_mem_map]
    exact ih
  | object inner names _ ih =>
    rw [octets_objectText]
    refine .object inner ?_ ?_ <;> rw [List.forall_mem_map]
    · exact fun pair member => (names pair member).octets
    · exact ih

end Octets

structure Label (name : String) where
  spelling : List Char
  spells : Spells name.toList spelling
  before : Gap
  between : Gap
  lead : Gap
  trail : Gap

structure Member where
  name : String
  label : Label name
  value : List Char
  wellFormed : WellFormed value

structure Object where
  inner : Gap
  members : List Member

def Member.pair (m : Member) : Pair :=
  ⟨m.label.before, m.label.spelling, m.label.between, m.label.lead, m.value, m.label.trail⟩

def Object.chars (o : Object) : List Char := objectText o.inner (o.members.map Member.pair)

theorem Object.wellFormed (o : Object) : WellFormed o.chars := by
  refine .object o.inner ?_ ?_ <;> rw [List.forall_mem_map]
  · exact fun m _ => m.label.spells.body
  · exact fun m _ => m.wellFormed

end PolishPlotter.Json
