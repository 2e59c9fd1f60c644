import Mathlib.Tactic.Linarith
import Mathlib.Tactic.Ring
import PolishPlotter.Binary64.Magnitude

set_option autoImplicit false

namespace PolishPlotter.Binary64

variable {num den bits k : Nat}

theorem unitsPerOne_eq : unitsPerOne = 2 ^ 1074 := by decide +kernel

theorem unitsPerOne_pos : 0 < unitsPerOne := by decide +kernel

theorem cast_unitsPerOne : (unitsPerOne : Int) = 2 ^ 1074 := by
  rw [unitsPerOne_eq, Nat.cast_pow, Nat.cast_ofNat]

section RoundEven

theorem roundEven_eq (given : 0 < den) (below : 2 * (k * den) ≤ 2 * num + den)
    (above : 2 * num ≤ 2 * (k * den) + den)
    (odd : k % 2 = 1 → 2 * (k * den) < 2 * num + den ∧ 2 * num < 2 * (k * den) + den) :
    roundEven num den = k := by
  have rest : num % den < den := Nat.mod_lt _ given
  have parts : num / den * den + num % den = num := Nat.div_add_mod' num den
  have around : num / den = k ∨ num / den + 1 = k := by
    have low : num / den ≤ k := by
      by_contra far
      have larger : (k + 1) * den ≤ num / den * den := Nat.mul_le_mul_right den (by omega)
      rw [Nat.add_one_mul] at larger
      omega
    have high : k ≤ num / den + 1 := by
      by_contra far
      have larger : (num / den + 2) * den ≤ k * den := Nat.mul_le_mul_right den (by omega)
      rw [Nat.add_mul] at larger
      omega
    omega
  simp only [roundEven]
  rcases around with same | next
  · subst same
    split_ifs <;> omega
  · subst next
    rw [Nat.add_one_mul (num / den)] at below above odd
    split_ifs <;> omega

theorem roundEven_mul_right (given : 0 < k) :
    roundEven (num * k) (den * k) = roundEven num den := by
  have twice : 2 * (num % den * k) = 2 * (num % den) * k := by ring
  simp only [roundEven, Nat.mul_div_mul_right _ _ given, Nat.mul_mod_mul_right, twice,
    Nat.mul_lt_mul_right given]

end RoundEven

section Parts

theorem mantissa_lt (bits : Nat) : mantissa bits < 2 ^ 53 := by
  simp only [mantissa, shift, Nat.pow_eq]
  omega

theorem shift_add_mantissa (bits : Nat) : shift bits * 2 ^ 52 + mantissa bits = bits := by
  simp only [mantissa, shift, Nat.pow_eq]
  omega

theorem le_mantissa (normal : 0 < shift bits) : 2 ^ 52 ≤ mantissa bits := by
  simp only [mantissa, shift, Nat.pow_eq] at normal ⊢
  omega

theorem mul_two_pow_lt {m n s t : Nat} (fits : m < 2 ^ 53) (full : 2 ^ 52 ≤ n) (less : s < t) :
    m * 2 ^ s < n * 2 ^ t :=
  calc m * 2 ^ s < 2 ^ 53 * 2 ^ s := Nat.mul_lt_mul_of_pos_right fits (by positivity)
    _ = 2 ^ 52 * 2 ^ (s + 1) := by ring
    _ ≤ 2 ^ 52 * 2 ^ t := Nat.mul_le_mul_left _ (Nat.pow_le_pow_right (by decide) less)
    _ ≤ n * 2 ^ t := Nat.mul_le_mul_right _ full

theorem units_mono {more : Nat} (le : bits ≤ more) : units bits ≤ units more := by
  have parts := shift_add_mantissa bits
  have moreParts := shift_add_mantissa more
  have fits := mantissa_lt bits
  have order : shift bits ≤ shift more := by
    simp only [shift, Nat.pow_eq]
    omega
  simp only [units, Nat.pow_eq]
  by_cases same : shift bits = shift more
  · rw [same] at parts ⊢
    exact Nat.mul_le_mul_right _ (by omega)
  · exact (mul_two_pow_lt fits (le_mantissa (by omega)) (by omega)).le

end Parts

theorem nearest_mul_right (given : 0 < k) : nearest (num * k) (den * k) = nearest num den := by
  have scaled (s : Nat) : den * k * Nat.pow 2 s = den * Nat.pow 2 s * k := by ring
  simp only [nearest, Nat.mul_div_mul_right _ _ given, scaled, roundEven_mul_right given]

theorem log2_div_lt {e : Nat} (positive : 0 < e) (given : 0 < den) (high : num < 2 ^ e * den) :
    (num / den).log2 < e := by
  have quotient : num / den < 2 ^ e := (Nat.div_lt_iff_lt_mul given).mpr high
  by_cases zero : num / den = 0
  · simpa [zero] using positive
  · exact (Nat.log2_lt zero).mpr quotient

theorem le_log2_div {e : Nat} (given : 0 < den) (low : 2 ^ e * den ≤ num) :
    e ≤ (num / den).log2 := by
  have quotient : 2 ^ e ≤ num / den := (Nat.le_div_iff_mul_le given).mpr low
  have nonzero : num / den ≠ 0 := (Nat.lt_of_lt_of_le (by positivity) quotient).ne'
  exact (Nat.le_log2 nonzero).mpr quotient

/-- The rounding interval of a magnitude, where `den * 2 ^ shift` is one gap. The gap below a power
of two is only half as wide. -/
structure RoundsTo (bits num den : Nat) : Prop where
  below : 2 * (mantissa bits * (den * 2 ^ shift bits)) ≤ 2 * num + den * 2 ^ shift bits
  above : 2 * num ≤ 2 * (mantissa bits * (den * 2 ^ shift bits)) + den * 2 ^ shift bits
  odd : mantissa bits % 2 = 1 →
    2 * (mantissa bits * (den * 2 ^ shift bits)) < 2 * num + den * 2 ^ shift bits ∧
      2 * num < 2 * (mantissa bits * (den * 2 ^ shift bits)) + den * 2 ^ shift bits
  narrow : mantissa bits = 2 ^ 52 → 0 < shift bits →
    4 * (mantissa bits * (den * 2 ^ shift bits)) ≤ 4 * num + den * 2 ^ shift bits

namespace RoundsTo

theorem nearest_eq_of_log2 (rounds : RoundsTo bits num den) (given : 0 < den)
    (finite : bits < infinityBits) (binade : (num / den).log2 - 52 = shift bits) :
    nearest num den = bits := by
  have gap : 0 < den * 2 ^ shift bits := Nat.mul_pos given (by positivity)
  have whole := roundEven_eq gap rounds.below rounds.above rounds.odd
  simp only [nearest, binade, Nat.pow_eq, whole, shift_add_mantissa]
  exact Nat.min_eq_left finite.le

theorem nearest_eq_of_carry (rounds : RoundsTo bits num den) (given : 0 < den)
    (finite : bits < infinityBits) (normal : 0 < shift bits)
    (less : num < 2 ^ 52 * (den * 2 ^ shift bits)) : nearest num den = bits := by
  obtain ⟨below, -, -, narrow⟩ := rounds
  have parts := shift_add_mantissa bits
  have least := le_mantissa normal
  obtain ⟨s, same⟩ := Nat.exists_eq_add_one.mpr normal
  have halved : den * 2 ^ shift bits = 2 * (den * 2 ^ s) := by
    rw [same]
    ring
  rw [halved] at below narrow less
  have gap : 0 < den * 2 ^ s := Nat.mul_pos given (by positivity)
  have power : mantissa bits = 2 ^ 52 := by
    by_contra other
    have more : (2 ^ 52 + 1) * (2 * (den * 2 ^ s)) ≤ mantissa bits * (2 * (den * 2 ^ s)) :=
      Nat.mul_le_mul_right _ (by omega)
    omega
  have total : s * 2 ^ 52 + 2 ^ 53 = bits := by
    rw [← parts, same, power]
    ring
  have close := narrow power normal
  rw [power] at close
  have whole : roundEven num (den * 2 ^ s) = 2 ^ 53 :=
    roundEven_eq gap (by omega) (by omega) (by omega)
  have unfolded (e : Nat) : 2 ^ (e + s) * den = 2 ^ e * (den * 2 ^ s) := by ring
  have low : 52 + s ≤ (num / den).log2 := le_log2_div given (by
    rw [unfolded]
    omega)
  have high : (num / den).log2 < 53 + s := log2_div_lt (by omega) given (by
    rw [unfolded]
    omega)
  have binade : (num / den).log2 - 52 = s := by omega
  have carried : nearest num den = min (s * 2 ^ 52 + 2 ^ 53) infinityBits := by
    simp only [nearest, binade, Nat.pow_eq, whole]
  rw [carried, total]
  exact Nat.min_eq_left finite.le

theorem nearest_eq (rounds : RoundsTo bits num den) (given : 0 < den)
    (finite : bits < infinityBits) : nearest num den = bits := by
  have unfolded (e : Nat) :
      2 ^ (e + shift bits) * den = 2 ^ e * (den * 2 ^ shift bits) := by ring
  have gap : 0 < den * 2 ^ shift bits := Nat.mul_pos given (by positivity)
  have largest : mantissa bits * (den * 2 ^ shift bits) ≤ (2 ^ 53 - 1) * (den * 2 ^ shift bits) :=
    Nat.mul_le_mul_right _ (Nat.le_sub_one_of_lt (mantissa_lt bits))
  have high : (num / den).log2 < 53 + shift bits := log2_div_lt (by omega) given (by
    have above := rounds.above
    rw [unfolded]
    omega)
  by_cases normal : 0 < shift bits
  · by_cases reached : 2 ^ 52 * (den * 2 ^ shift bits) ≤ num
    · have low : 52 + shift bits ≤ (num / den).log2 := le_log2_div given (by rwa [unfolded])
      exact rounds.nearest_eq_of_log2 given finite (by omega)
    · exact rounds.nearest_eq_of_carry given finite normal (by omega)
  · exact rounds.nearest_eq_of_log2 given finite (by omega)

end RoundsTo

theorem nearest_units (finite : bits < infinityBits) : nearest (units bits) 1 = bits := by
  have gap : 0 < 2 ^ shift bits := by positivity
  have rounds : RoundsTo bits (units bits) 1 := by
    constructor <;> simp only [units, Nat.pow_eq, Nat.one_mul] <;> omega
  exact rounds.nearest_eq Nat.one_pos finite

theorem nearest_eq_zero (given : 0 < den) (small : 2 * num ≤ den) : nearest num den = 0 := by
  have quotient : num / den = 0 := Nat.div_eq_of_lt (by omega)
  have whole : roundEven num den = 0 := roundEven_eq given (by omega) (by omega) (by omega)
  simp [nearest, quotient, whole]

theorem le_roundEven (given : 0 < den) (low : k * den ≤ num) : k ≤ roundEven num den := by
  have quotient : k ≤ num / den := (Nat.le_div_iff_mul_le given).mpr low
  simp only [roundEven]
  split_ifs <;> omega

theorem gap_le (given : 0 < den) (normal : 52 ≤ (num / den).log2) :
    2 ^ 52 * (den * 2 ^ ((num / den).log2 - 52)) ≤ num := by
  have quotient : num / den ≠ 0 := by
    intro zero
    simp [zero] at normal
  calc 2 ^ 52 * (den * 2 ^ ((num / den).log2 - 52))
      = 2 ^ (52 + ((num / den).log2 - 52)) * den := by ring
    _ = 2 ^ (num / den).log2 * den := by rw [Nat.add_sub_cancel' normal]
    _ ≤ num := (Nat.le_div_iff_mul_le given).mp (Nat.log2_self_le quotient)

theorem full_mantissa (given : 0 < den) (normal : 52 ≤ (num / den).log2) :
    2 ^ 52 ≤ roundEven num (den * 2 ^ ((num / den).log2 - 52)) :=
  le_roundEven (Nat.mul_pos given (by positivity)) (gap_le given normal)

theorem nearest_eq_infinityBits (given : 0 < den) (large : 2 ^ 2098 * den ≤ num) :
    nearest num den = infinityBits := by
  have binade : 2098 ≤ (num / den).log2 := le_log2_div given large
  have whole := full_mantissa given (Nat.le_trans (by omega) binade)
  simp only [nearest, infinityBits, Nat.pow_eq]
  omega

section Order

theorem roundEven_mono {more : Nat} (le : num ≤ more) (den : Nat) :
    roundEven num den ≤ roundEven more den := by
  have quotient : num / den ≤ more / den := Nat.div_le_div_right le
  have parts := Nat.div_add_mod num den
  have moreParts := Nat.div_add_mod more den
  by_cases same : num / den = more / den
  · rw [same] at parts
    have rest : num % den ≤ more % den := by omega
    simp only [roundEven, same]
    split_ifs <;> omega
  · simp only [roundEven]
    split_ifs <;> omega

theorem roundEven_error (given : 0 < den) :
    2 * num ≤ 2 * (roundEven num den * den) + den ∧
      2 * (roundEven num den * den) ≤ 2 * num + den := by
  have rest : num % den < den := Nat.mod_lt _ given
  have parts : num / den * den + num % den = num := Nat.div_add_mod' num den
  have up := Nat.add_one_mul (num / den) den
  simp only [roundEven]
  split_ifs with less more
  · omega
  · omega
  · rcases Nat.mod_two_eq_zero_or_one (num / den) with even | odd
    · rw [even, Nat.add_zero]
      omega
    · rw [odd]
      omega

theorem roundEven_le_two_pow (given : 0 < den) :
    roundEven num (den * 2 ^ ((num / den).log2 - 52)) ≤ 2 ^ 53 := by
  have positive : 0 < den * 2 ^ ((num / den).log2 - 52) := Nat.mul_pos given (by positivity)
  have bounded : num ≤ 2 ^ 53 * (den * 2 ^ ((num / den).log2 - 52)) := by
    have power : num / den < 2 ^ ((num / den).log2 + 1) := Nat.lt_log2_self
    have quotient : num < 2 ^ ((num / den).log2 + 1) * den := (Nat.div_lt_iff_lt_mul given).mp power
    calc num ≤ 2 ^ ((num / den).log2 + 1) * den := quotient.le
      _ ≤ 2 ^ (53 + ((num / den).log2 - 52)) * den :=
        Nat.mul_le_mul_right _ (Nat.pow_le_pow_right (by decide) (by omega))
      _ = 2 ^ 53 * (den * 2 ^ ((num / den).log2 - 52)) := by ring
  calc roundEven num (den * 2 ^ ((num / den).log2 - 52))
      ≤ roundEven (2 ^ 53 * (den * 2 ^ ((num / den).log2 - 52))) _ := roundEven_mono bounded _
    _ = 2 ^ 53 := roundEven_mul _ positive

theorem nearest_mono {more : Nat} (given : 0 < den) (le : num ≤ more) :
    nearest num den ≤ nearest more den := by
  have full := @full_mantissa more den given
  have bounded := @roundEven_le_two_pow num den given
  have logs : (num / den).log2 ≤ (more / den).log2 := by
    by_cases zero : num / den = 0
    · simp [zero]
    · have quotient : num / den ≤ more / den := Nat.div_le_div_right le
      have nonzero : more / den ≠ 0 := ((Nat.pos_of_ne_zero zero).trans_le quotient).ne'
      exact (Nat.le_log2 nonzero).mpr (Nat.le_trans (Nat.log2_self_le zero) quotient)
  simp only [nearest, Nat.pow_eq]
  refine min_le_min_right _ ?_
  by_cases same : (num / den).log2 - 52 = (more / den).log2 - 52
  · rw [same]
    exact Nat.add_le_add_left (roundEven_mono le _) _
  · have normal := full (by omega)
    have further : ((num / den).log2 - 52 + 1) * 2 ^ 52 ≤ ((more / den).log2 - 52) * 2 ^ 52 :=
      Nat.mul_le_mul_right _ (by omega)
    omega

-- A mantissa of `2 ^ 53` has carried.
theorem units_of_parts {s r : Nat} (bounded : r ≤ 2 ^ 53) (normal : 0 < s → 2 ^ 52 ≤ r) :
    units (s * 2 ^ 52 + r) = r * 2 ^ s := by
  have carried : r = 2 ^ 53 ∨ r < 2 ^ 53 := by omega
  rcases carried with rfl | less
  · have shifted : shift (s * 2 ^ 52 + 2 ^ 53) = s + 1 := by
      simp only [shift, Nat.pow_eq]
      omega
    have kept : mantissa (s * 2 ^ 52 + 2 ^ 53) = 2 ^ 52 := by
      have parts := shift_add_mantissa (s * 2 ^ 52 + 2 ^ 53)
      omega
    rw [units, kept, shifted, Nat.pow_eq]
    ring
  · have shifted : shift (s * 2 ^ 52 + r) = s := by
      simp only [shift, Nat.pow_eq]
      omega
    have kept : mantissa (s * 2 ^ 52 + r) = r := by
      have parts := shift_add_mantissa (s * 2 ^ 52 + r)
      omega
    rw [units, kept, shifted, Nat.pow_eq]

theorem units_nearest (given : 0 < den) (finite : nearest num den < infinityBits) :
    units (nearest num den) = roundEven num (den * 2 ^ ((num / den).log2 - 52)) *
      2 ^ ((num / den).log2 - 52) := by
  have unbounded : nearest num den =
      ((num / den).log2 - 52) * 2 ^ 52 + roundEven num (den * 2 ^ ((num / den).log2 - 52)) := by
    simp only [nearest, Nat.pow_eq] at finite ⊢
    exact Nat.min_eq_left ((min_lt_iff.mp finite).resolve_right (Nat.lt_irrefl _)).le
  rw [unbounded]
  exact units_of_parts (roundEven_le_two_pow given)
    (fun normal => full_mantissa given (by omega))

theorem nearest_ratio_error (given : 0 < den) (finite : nearest num den < infinityBits) :
    2 ^ 53 * num ≤ 2 ^ 53 * (units (nearest num den) * den) + num + 2 ^ 52 * den ∧
      2 ^ 53 * (units (nearest num den) * den) ≤ 2 ^ 53 * num + num + 2 ^ 52 * den := by
  have large := @gap_le num den given
  have error := @roundEven_error num (den * 2 ^ ((num / den).log2 - 52))
    (Nat.mul_pos given (by positivity))
  rw [units_nearest given finite, Nat.mul_assoc, Nat.mul_comm (2 ^ _) den]
  by_cases normal : 52 ≤ (num / den).log2
  · have gap := large normal
    omega
  · rw [Nat.sub_eq_zero_of_le (by omega), Nat.pow_zero, Nat.mul_one] at error ⊢
    omega

theorem nearest_error (finite : nearest num 1 < infinityBits) :
    2 ^ 53 * num ≤ 2 ^ 53 * units (nearest num 1) + num ∧
      2 ^ 53 * units (nearest num 1) ≤ 2 ^ 53 * num + num := by
  have large := @gap_le num 1 Nat.one_pos
  have error := @roundEven_error num (1 * 2 ^ ((num / 1).log2 - 52)) (by positivity)
  rw [units_nearest Nat.one_pos finite]
  rw [Nat.one_mul] at large error ⊢
  by_cases normal : 52 ≤ (num / 1).log2
  · have gap := large normal
    omega
  · have exact : roundEven num 1 = num := by
      simpa using roundEven_mul num Nat.one_pos
    rw [Nat.sub_eq_zero_of_le (by omega), Nat.pow_zero, exact]
    omega

end Order

end PolishPlotter.Binary64
