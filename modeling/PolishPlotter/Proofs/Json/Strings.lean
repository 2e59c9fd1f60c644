import PolishPlotter.Proofs.Json.Grammar

set_option autoImplicit false

namespace PolishPlotter.Json

variable {α : Type} {c : Char} {digits rest body name spelling acc s : List Char} {n fuel : Nat}

def settled : Option α → List Char → Except ReadError (Scanned α)
  | some x, s => .ok (x, s)
  | none, _ => .error .malformed

theorem codeUnit_hex (hex : Hex digits n) (s : List Char) :
    codeUnit (digits ++ s) = .ok (n, s) := by
  cases hex with
  | four first second third fourth =>
    simp only [List.cons_append, List.nil_append, codeUnit, first, second, third, fourth]

theorem ne_unit_of_controlEscape? (known : (controlEscape? c).isSome = true) : c ≠ 'u' := by
  rintro rfl
  cases known

theorem skipEscape_known (known : (controlEscape? c).isSome = true) (s : List Char) :
    skipEscape (c :: s) = .ok s := by
  simp [skipEscape, ne_unit_of_controlEscape? known, known]

theorem skipStringFrom_body (string : Body body) (enough : body.length < fuel) (s : List Char) :
    skipStringFrom fuel (body ++ '"' :: s) = .ok s := by
  obtain ⟨fuel, rfl⟩ := Nat.exists_eq_add_one.mpr (Nat.zero_lt_of_lt enough)
  induction string generalizing fuel with
  | nil => rfl
  | plain plain _ ih =>
    simp only [List.length_cons] at enough
    obtain ⟨fuel, rfl⟩ := Nat.exists_eq_add_one.mpr (by omega : 0 < fuel)
    have later := ih fuel (by omega)
    simpa [skipStringFrom, plain.quote, plain.backslash, plain.visible] using later
  | escape known _ ih =>
    simp only [List.length_cons] at enough
    obtain ⟨fuel, rfl⟩ := Nat.exists_eq_add_one.mpr (by omega : 0 < fuel)
    have later := ih fuel (by omega)
    simpa [skipStringFrom, skipEscape_known known] using later
  | unit hex _ ih =>
    simp only [List.length_cons, List.length_append] at enough
    obtain ⟨fuel, rfl⟩ := Nat.exists_eq_add_one.mpr (by omega : 0 < fuel)
    have later := ih fuel (by omega)
    simpa [skipStringFrom, skipEscape, codeUnit_hex hex, Except.map] using later

theorem skipString_body (string : Body body) (s : List Char) :
    skipString (body ++ '"' :: s) = .ok s :=
  skipStringFrom_body string (by rw [List.length_append]; omega) s

section Reading

theorem escape_known {e : Char} (known : controlEscape? e = some c) (s : List Char) :
    escape (e :: s) = .ok ([c], s) := by
  have other : e ≠ 'u' := ne_unit_of_controlEscape? (by rw [known]; rfl)
  simp [escape, known]

theorem codePoint_hex (hex : Hex digits n) (s : List Char) : codePoint (digits ++ s) =
    if 0xD800 ≤ n ∧ n < 0xDC00 then do
      let s ← expect ['\\', 'u'] s
      let (low, s) ← codeUnit s
      if 0xDC00 ≤ low ∧ low < 0xE000 then
        .ok (.ofNat (0x10000 + (n - 0xD800) * 0x400 + (low - 0xDC00)), s)
      else .error .malformed
    else if 0xDC00 ≤ n ∧ n < 0xE000 then .error .malformed
    else .ok (.ofNat n, s) := by
  rw [codePoint, codeUnit_hex hex]
  rfl

theorem codePoint_body (hex : Hex digits n) (string : Body rest) :
    (∀ s, codePoint (digits ++ (rest ++ '"' :: s)) = .error .malformed) ∨
    ∃ c left, Body left ∧ left.length ≤ rest.length ∧
      ∀ s, codePoint (digits ++ (rest ++ '"' :: s)) = .ok (c, left ++ '"' :: s) := by
  simp only [codePoint_hex hex]
  split_ifs with high low
  · cases string with
    | nil => exact .inl fun _ => rfl
    | plain plain => exact .inl fun _ => by simp [expect, plain.backslash, bind, Except.bind]
    | escape known =>
      exact .inl fun _ => by simp [expect, ne_unit_of_controlEscape? known, bind, Except.bind]
    | @unit digits left m second more =>
      have both : ∀ s, expect ['\\', 'u'] ('\\' :: 'u' :: (digits ++ left) ++ '"' :: s) =
          .ok (digits ++ (left ++ '"' :: s)) := fun s => by simp [expect]
      simp only [both, bind, Except.bind, codeUnit_hex second]
      split_ifs with lower
      · refine .inr ⟨_, left, more, ?_, fun _ => rfl⟩
        simp only [List.length_cons, List.length_append]
        omega
      · exact .inl fun _ => rfl
  · exact .inl fun _ => rfl
  · exact .inr ⟨_, rest, string, le_rfl, fun _ => rfl⟩

theorem stringFrom_quote (fuel : Nat) (acc s : List Char) : stringFrom (fuel + 1) acc ('"' :: s) =
    settled (if isUtf8 acc.reverse then some acc.reverse else none) s := by
  rw [stringFrom]
  split_ifs <;> rfl

theorem stringFrom_plain (plain : Plain c) (fuel : Nat) (acc s : List Char) :
    stringFrom (fuel + 1) acc (c :: s) = stringFrom fuel (c :: acc) s := by
  simp [stringFrom, plain.quote, plain.backslash, plain.visible]

theorem stringFrom_escape {octets left : List Char} (escaped : escape s = .ok (octets, left))
    (fuel : Nat) (acc : List Char) :
    stringFrom (fuel + 1) acc ('\\' :: s) = stringFrom fuel (octets.reverse ++ acc) left := by
  simp only [stringFrom, escaped]

theorem stringFrom_refused {e : ReadError} (escaped : escape s = .error e) (fuel : Nat)
    (acc : List Char) : stringFrom (fuel + 1) acc ('\\' :: s) = .error e := by
  simp only [stringFrom, escaped]

-- By length, since a pair of surrogates takes two code units at once.
theorem stringFrom_settles {bound : Nat} (string : Body body) (short : body.length < bound)
    (acc : List Char) : ∃ o : Option (List Char), ∀ fuel s, body.length < fuel →
      stringFrom fuel acc (body ++ '"' :: s) = settled o s := by
  induction bound generalizing body acc with
  | zero => cases short
  | succ bound ih =>
    cases string with
    | nil =>
      refine ⟨if isUtf8 acc.reverse then some acc.reverse else none, fun fuel s enough => ?_⟩
      obtain ⟨fuel, rfl⟩ := Nat.exists_eq_add_one.mpr (Nat.zero_lt_of_lt enough)
      exact stringFrom_quote fuel acc s
    | @plain c rest plain more =>
      simp only [List.length_cons] at short ⊢
      obtain ⟨o, settles⟩ := ih more (by omega) (c :: acc)
      refine ⟨o, fun fuel s enough => ?_⟩
      obtain ⟨fuel, rfl⟩ := Nat.exists_eq_add_one.mpr (Nat.zero_lt_of_lt enough)
      rw [List.cons_append, stringFrom_plain plain]
      exact settles fuel s (by omega)
    | @escape e rest known more =>
      obtain ⟨c, stands⟩ := Option.isSome_iff_exists.mp known
      simp only [List.length_cons] at short ⊢
      obtain ⟨o, settles⟩ := ih more (by omega) ([c].reverse ++ acc)
      refine ⟨o, fun fuel s enough => ?_⟩
      obtain ⟨fuel, rfl⟩ := Nat.exists_eq_add_one.mpr (Nat.zero_lt_of_lt enough)
      rw [List.cons_append, List.cons_append, stringFrom_escape (escape_known stands _)]
      exact settles fuel s (by omega)
    | @unit digits rest n hex more =>
      simp only [List.length_cons, List.length_append] at short ⊢
      rcases codePoint_body hex more with refused | ⟨c, left, other, less, decoded⟩
      · refine ⟨none, fun fuel s enough => ?_⟩
        obtain ⟨fuel, rfl⟩ := Nat.exists_eq_add_one.mpr (Nat.zero_lt_of_lt enough)
        simp only [List.cons_append, List.append_assoc]
        refine stringFrom_refused ?_ fuel acc
        rw [escape, refused]
        rfl
      · obtain ⟨o, settles⟩ := ih other (by omega) ((octetsOf c).reverse ++ acc)
        refine ⟨o, fun fuel s enough => ?_⟩
        obtain ⟨fuel, rfl⟩ := Nat.exists_eq_add_one.mpr (Nat.zero_lt_of_lt enough)
        have escaped : escape ('u' :: (digits ++ (rest ++ '"' :: s))) =
            .ok (octetsOf c, left ++ '"' :: s) := by
          rw [escape, decoded]
          rfl
        simp only [List.cons_append, List.append_assoc, stringFrom_escape escaped]
        exact settles fuel s (by omega)

theorem string_settles (string : Body body) :
    ∃ o : Option (List Char), ∀ s, Json.string (body ++ '"' :: s) = settled o s := by
  obtain ⟨o, settles⟩ := stringFrom_settles string (Nat.lt_succ_self _) []
  exact ⟨o, fun s => settles _ s (by rw [List.length_append]; omega)⟩

end Reading

section Naming

theorem stringFrom_append_plain {octets : List Char} (plain : ∀ o ∈ octets, Plain o)
    (fuel : Nat) (acc s : List Char) : stringFrom (fuel + octets.length) acc (octets ++ s) =
      stringFrom fuel (octets.reverse ++ acc) s := by
  induction octets generalizing acc with
  | nil => rfl
  | cons o rest ih =>
    obtain ⟨first, later⟩ := List.forall_mem_cons.mp plain
    rw [List.length_cons, ← Nat.add_assoc, List.cons_append, stringFrom_plain first, ih later,
      List.reverse_cons, List.append_assoc, List.singleton_append]

theorem reverse_octets_append (c : Char) (acc name : List Char) :
    ((octetsOf c).reverse ++ acc).reverse ++ name.flatMap octetsOf =
      acc.reverse ++ (c :: name).flatMap octetsOf := by
  rw [List.reverse_append, List.reverse_reverse, List.flatMap_cons, List.append_assoc]

theorem escape_control {e : Char} (known : controlEscape? e = some c) (s : List Char) :
    escape (e :: s) = .ok (octetsOf c, s) := by
  have ascii : IsAscii c := by
    unfold controlEscape? at known
    split at known <;> cases known <;> decide
  rw [escape_known known, octetsOf_of_isAscii ascii]

theorem escape_unit (hex : Hex digits c.toNat) (s : List Char) :
    escape ('u' :: (digits ++ s)) = .ok (octetsOf c, s) := by
  have valid : c.toNat < 0xD800 ∨ 0xDFFF < c.toNat ∧ c.toNat < 0x110000 := c.valid
  have notHigh : ¬ (0xD800 ≤ c.toNat ∧ c.toNat < 0xDC00) := by omega
  have notLow : ¬ (0xDC00 ≤ c.toNat ∧ c.toNat < 0xE000) := by omega
  rw [escape, codePoint_hex hex, if_neg notHigh, if_neg notLow, Char.ofNat_toNat]
  rfl

theorem escape_pair {high low : List Char} {h l : Nat} (upper : Hex high (0xD800 + h))
    (lower : Hex low (0xDC00 + l)) (highest : h < 0x400) (lowest : l < 0x400)
    (whole : c.toNat = 0x10000 + h * 0x400 + l) (s : List Char) :
    escape ('u' :: (high ++ '\\' :: 'u' :: (low ++ s))) = .ok (octetsOf c, s) := by
  have isHigh : 0xD800 ≤ 0xD800 + h ∧ 0xD800 + h < 0xDC00 := by omega
  have isLow : 0xDC00 ≤ 0xDC00 + l ∧ 0xDC00 + l < 0xE000 := by omega
  have next : expect ['\\', 'u'] ('\\' :: 'u' :: (low ++ s)) = .ok (low ++ s) := rfl
  rw [escape, codePoint_hex upper, if_pos isHigh, next]
  simp only [bind, Except.bind, codeUnit_hex lower, if_pos isLow, Nat.add_sub_cancel_left, ← whole,
    Char.ofNat_toNat]

theorem stringFrom_spells (spells : Spells name spelling)
    (enough : (spelling.flatMap octetsOf).length < fuel) (acc s : List Char) :
    stringFrom fuel acc (spelling.flatMap octetsOf ++ '"' :: s) =
      settled (if isUtf8 (acc.reverse ++ name.flatMap octetsOf)
        then some (acc.reverse ++ name.flatMap octetsOf) else none) s := by
  have backslash : IsAscii '\\' := by decide
  have mark : IsAscii 'u' := by decide
  induction spells generalizing fuel acc with
  | nil =>
    obtain ⟨fuel, rfl⟩ := Nat.exists_eq_add_one.mpr (Nat.zero_lt_of_lt enough)
    simp only [List.flatMap_nil, List.append_nil]
    exact stringFrom_quote fuel acc s
  | @plain c name rest plain more ih =>
    rw [List.flatMap_cons, List.length_append] at enough
    obtain ⟨fuel, rfl⟩ := Nat.exists_eq_add_of_le' (by omega : (octetsOf c).length ≤ fuel)
    rw [List.flatMap_cons, List.append_assoc, stringFrom_append_plain plain.octets,
      ih (by omega), reverse_octets_append]
  | @escape c e name rest known more ih =>
    have ascii := isAscii_of_controlEscape? (by rw [known]; rfl)
    simp only [octets_cons backslash, octets_cons ascii, List.length_cons] at enough ⊢
    obtain ⟨fuel, rfl⟩ := Nat.exists_eq_add_one.mpr (Nat.zero_lt_of_lt enough)
    rw [List.cons_append, List.cons_append, stringFrom_escape (escape_control known _),
      ih (by omega), reverse_octets_append]
  | @unit c digits name rest hex more ih =>
    simp only [octets_cons backslash, octets_cons mark, List.flatMap_append, hex.octets,
      List.length_cons, List.length_append] at enough ⊢
    obtain ⟨fuel, rfl⟩ := Nat.exists_eq_add_one.mpr (Nat.zero_lt_of_lt enough)
    rw [List.cons_append, List.cons_append, List.append_assoc,
      stringFrom_escape (escape_unit hex _), ih (by omega), reverse_octets_append]
  | @pair c high low name rest h l upper lower highest lowest whole more ih =>
    simp only [octets_cons backslash, octets_cons mark, List.flatMap_append, upper.octets,
      lower.octets, List.length_cons, List.length_append] at enough ⊢
    obtain ⟨fuel, rfl⟩ := Nat.exists_eq_add_one.mpr (Nat.zero_lt_of_lt enough)
    simp only [List.cons_append, List.append_assoc]
    rw [stringFrom_escape (escape_pair upper lower highest lowest whole _), ih (by omega),
      reverse_octets_append]

theorem string_spells (spells : Spells name spelling) (s : List Char) :
    Json.string (spelling.flatMap octetsOf ++ '"' :: s) = .ok (name.flatMap octetsOf, s) := by
  rw [Json.string, stringFrom_spells spells (by rw [List.length_append]; omega), List.reverse_nil,
    List.nil_append, if_pos (isUtf8_octets name)]
  rfl

end Naming

end PolishPlotter.Json
