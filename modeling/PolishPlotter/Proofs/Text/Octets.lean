import Mathlib
import PolishPlotter.Text.Octets

set_option autoImplicit false

namespace PolishPlotter

variable {c o : Char} {cs ds : List Char}

def IsAscii (c : Char) : Prop := c.toNat < 0x80

instance : DecidablePred IsAscii := fun c => inferInstanceAs (Decidable (c.toNat < 0x80))

theorem toNat_ofNat_toNat (b : UInt8) : (Char.ofNat b.toNat).toNat = b.toNat := by
  have small : b.toNat < 256 := b.toNat_lt
  rw [Char.toNat_ofNat, if_pos (.inl (by omega))]

theorem octetsOf_of_isAscii (ascii : IsAscii c) : octetsOf c = [c] := by
  have small : c.val.toNat ≤ 127 := Nat.le_of_lt_succ ascii
  have same : (UInt8.ofNat c.val.toNat).toNat = c.toNat := by
    rw [UInt8.toNat_ofNat']
    exact Nat.mod_eq_of_lt (by omega)
  rw [octetsOf, String.utf8EncodeChar, octets]
  simp only [if_pos small, List.map_cons, List.map_nil, same, Char.ofNat_toNat]

theorem high_of_mem_utf8EncodeChar {b : UInt8} (beyond : ¬ c.val.toNat ≤ 127)
    (member : b ∈ String.utf8EncodeChar c) : 0x80 ≤ b.toNat := by
  have high : ∀ n, 128 ≤ n → n < 256 → 128 ≤ (UInt8.ofNat n).toNat := by
    intro n low small
    rwa [UInt8.toNat_ofNat', Nat.mod_eq_of_lt small]
  simp only [String.utf8EncodeChar, if_neg beyond] at member
  -- Two, three or four bytes: the first has two high bits or more, each of the others one.
  split_ifs at member <;>
    simp only [List.mem_cons, List.not_mem_nil, or_false] at member
  · rcases member with rfl | rfl <;> exact high _ (by omega) (by omega)
  · rcases member with rfl | rfl | rfl <;> exact high _ (by omega) (by omega)
  · rcases member with rfl | rfl | rfl | rfl <;> exact high _ (by omega) (by omega)

theorem not_isAscii_of_mem_octetsOf (beyond : ¬ IsAscii c) (member : o ∈ octetsOf c) :
    ¬ IsAscii o := by
  obtain ⟨b, inside, rfl⟩ := List.mem_map.mp member
  rw [IsAscii, toNat_ofNat_toNat, Nat.not_lt]
  exact high_of_mem_utf8EncodeChar (fun small => beyond (Nat.lt_succ_of_le small)) inside

theorem octetsOf_ne_nil (c : Char) : octetsOf c ≠ [] := by
  simp [octetsOf, octets]

theorem octets_cons (ascii : IsAscii c) (cs : List Char) :
    (c :: cs).flatMap octetsOf = c :: cs.flatMap octetsOf := by
  rw [List.flatMap_cons, octetsOf_of_isAscii ascii, List.singleton_append]

theorem octets_of_isAscii (ascii : ∀ c ∈ cs, IsAscii c) : cs.flatMap octetsOf = cs := by
  induction cs with
  | nil => rfl
  | cons c rest ih =>
    obtain ⟨first, later⟩ := List.forall_mem_cons.mp ascii
    rw [octets_cons first, ih later]

theorem isAscii_of_octets (ascii : ∀ o ∈ cs.flatMap octetsOf, IsAscii o) : ∀ c ∈ cs, IsAscii c := by
  intro c member
  by_contra beyond
  obtain ⟨o, inside⟩ := List.exists_mem_of_ne_nil _ (octetsOf_ne_nil c)
  exact not_isAscii_of_mem_octetsOf beyond inside
    (ascii o (List.mem_flatMap.mpr ⟨c, member, inside⟩))

theorem octets_eq_iff (ascii : ∀ d ∈ ds, IsAscii d) : cs.flatMap octetsOf = ds ↔ cs = ds := by
  constructor
  · rintro rfl
    exact (octets_of_isAscii (isAscii_of_octets ascii)).symm
  · rintro rfl
    exact octets_of_isAscii ascii

theorem isUtf8_octets (cs : List Char) : isUtf8 (cs.flatMap octetsOf) = true := by
  have bytes : (cs.flatMap octetsOf).map (fun c => UInt8.ofNat c.toNat) =
      cs.flatMap String.utf8EncodeChar := by
    rw [List.map_flatMap]
    refine List.flatMap_congr fun c _ => ?_
    rw [octetsOf, octets, List.map_map]
    refine (List.map_congr_left fun b _ => ?_).trans (List.map_id _)
    rw [Function.comp_apply, toNat_ofNat_toNat, UInt8.ofNat_toNat, id]
  rw [isUtf8, ByteArray.validateUTF8_eq_true_iff]
  refine ⟨cs, ?_⟩
  rw [bytes, List.utf8Encode]
  exact ByteArray.ext (List.data_toByteArray).symm

end PolishPlotter
