import LineShell.Text.Utf8
import Mathlib.Tactic.SplitIfs

/-!
# Octets that amount to a character

The table of well-formed octet sequences admits a few octets as a character exactly if they are the
octets of that character. The conditions of the table are stated on the values of the octets first;
what remains is arithmetic on these values.
-/

namespace LineShell.Utf8

theorem toNat_ofNat {v : Nat} (h : v.isValidChar) : (Char.ofNat v).toNat = v := by
  have hchar : Char.ofNat v = Char.ofNatAux v h := dif_pos h
  rw [hchar]
  rfl

theorem eq_ofNat {octet : UInt8} {v : Nat} (h : octet.toNat = v) : octet = UInt8.ofNat v := by
  rw [← h, UInt8.ofNat_toNat]

theorem width_eq (first : UInt8) :
    width first =
      if first.toNat < 0x80 then 1 else if first.toNat < 0xC2 then 0
      else if first.toNat < 0xE0 then 2 else if first.toNat < 0xF0 then 3
      else if first.toNat < 0xF5 then 4 else 0 := by
  simp only [width, UInt8.lt_iff_toNat_lt, UInt8.reduceToNat]

theorem isContinuation_iff (octet : UInt8) :
    isContinuation octet = true ↔ 0x80 ≤ octet.toNat ∧ octet.toNat ≤ 0xBF := by
  simp only [isContinuation, Bool.and_eq_true, decide_eq_true_eq, UInt8.le_iff_toNat_le,
    UInt8.reduceToNat]

theorem mayFollow_iff (first second : UInt8) :
    mayFollow first second = true ↔
      0x80 ≤ second.toNat ∧ second.toNat ≤ 0xBF ∧
        (first.toNat = 0xE0 → 0xA0 ≤ second.toNat) ∧ (first.toNat = 0xED → second.toNat ≤ 0x9F) ∧
        (first.toNat = 0xF0 → 0x90 ≤ second.toNat) ∧
        (first.toNat = 0xF4 → second.toNat ≤ 0x8F) := by
  simp only [mayFollow, isContinuation, ← UInt8.toNat_inj, UInt8.le_iff_toNat_le,
    UInt8.reduceToNat]
  split_ifs <;> simp only [Bool.and_eq_true, decide_eq_true_eq] <;> omega

/-- The octets of the character with some value. -/
theorem encodeChar_ofNat {v : Nat} (h : v.isValidChar) :
    String.utf8EncodeChar (Char.ofNat v) =
      if v ≤ 0x7F then [UInt8.ofNat v]
      else if v ≤ 0x7FF then [UInt8.ofNat (v / 64 % 32 + 0xC0), UInt8.ofNat (v % 64 + 0x80)]
      else if v ≤ 0xFFFF then
        [UInt8.ofNat (v / 4096 % 16 + 0xE0), UInt8.ofNat (v / 64 % 64 + 0x80),
          UInt8.ofNat (v % 64 + 0x80)]
      else
        [UInt8.ofNat (v / 262144 % 8 + 0xF0), UInt8.ofNat (v / 4096 % 64 + 0x80),
          UInt8.ofNat (v / 64 % 64 + 0x80), UInt8.ofNat (v % 64 + 0x80)] := by
  have hv : (Char.ofNat v).val.toNat = v := toNat_ofNat h
  simp only [String.utf8EncodeChar, hv]

theorem encodeChar_one {a : UInt8} (ha : a.toNat < 0x80) :
    String.utf8EncodeChar (Char.ofNat a.toNat) = [a] := by
  rw [encodeChar_ofNat (.inl (by omega)), if_pos (by omega), UInt8.ofNat_toNat]

theorem encodeChar_two {a b : UInt8} (ha : 0xC2 ≤ a.toNat ∧ a.toNat < 0xE0)
    (hb : 0x80 ≤ b.toNat ∧ b.toNat ≤ 0xBF) :
    String.utf8EncodeChar (Char.ofNat (a.toNat % 32 * 64 + b.toNat % 64)) = [a, b] := by
  generalize hv : a.toNat % 32 * 64 + b.toNat % 64 = v
  rw [encodeChar_ofNat (.inl (by omega)), if_neg (by omega), if_pos (by omega)]
  have hfirst : a = UInt8.ofNat (v / 64 % 32 + 0xC0) := eq_ofNat (by omega)
  have hsecond : b = UInt8.ofNat (v % 64 + 0x80) := eq_ofNat (by omega)
  rw [← hfirst, ← hsecond]

theorem encodeChar_three {a b c : UInt8} (ha : 0xE0 ≤ a.toNat ∧ a.toNat < 0xF0)
    (hb : mayFollow a b = true) (hc : 0x80 ≤ c.toNat ∧ c.toNat ≤ 0xBF) :
    String.utf8EncodeChar
        (Char.ofNat ((a.toNat % 16 * 64 + b.toNat % 64) * 64 + c.toNat % 64)) = [a, b, c] := by
  obtain ⟨hlow, hhigh, hshort, hsurrogate, -, -⟩ := (mayFollow_iff a b).mp hb
  generalize hv : (a.toNat % 16 * 64 + b.toNat % 64) * 64 + c.toNat % 64 = v
  have hvalid : v.isValidChar := by
    by_cases hbelow : v < 0xD800
    · exact .inl hbelow
    · exact .inr ⟨by omega, by omega⟩
  rw [encodeChar_ofNat hvalid, if_neg (by omega), if_neg (by omega), if_pos (by omega)]
  have hfirst : a = UInt8.ofNat (v / 4096 % 16 + 0xE0) := eq_ofNat (by omega)
  have hsecond : b = UInt8.ofNat (v / 64 % 64 + 0x80) := eq_ofNat (by omega)
  have hthird : c = UInt8.ofNat (v % 64 + 0x80) := eq_ofNat (by omega)
  rw [← hfirst, ← hsecond, ← hthird]

theorem encodeChar_four {a b c d : UInt8} (ha : 0xF0 ≤ a.toNat ∧ a.toNat < 0xF5)
    (hb : mayFollow a b = true) (hc : 0x80 ≤ c.toNat ∧ c.toNat ≤ 0xBF)
    (hd : 0x80 ≤ d.toNat ∧ d.toNat ≤ 0xBF) :
    String.utf8EncodeChar
        (Char.ofNat (((a.toNat % 8 * 64 + b.toNat % 64) * 64 + c.toNat % 64) * 64 + d.toNat % 64)) =
      [a, b, c, d] := by
  obtain ⟨hlow, hhigh, -, -, hshort, hlast⟩ := (mayFollow_iff a b).mp hb
  generalize hv : ((a.toNat % 8 * 64 + b.toNat % 64) * 64 + c.toNat % 64) * 64 + d.toNat % 64 = v
  have hvalid : v.isValidChar := .inr ⟨by omega, by omega⟩
  rw [encodeChar_ofNat hvalid, if_neg (by omega), if_neg (by omega), if_neg (by omega)]
  have hfirst : a = UInt8.ofNat (v / 262144 % 8 + 0xF0) := eq_ofNat (by omega)
  have hsecond : b = UInt8.ofNat (v / 4096 % 64 + 0x80) := eq_ofNat (by omega)
  have hthird : c = UInt8.ofNat (v / 64 % 64 + 0x80) := eq_ofNat (by omega)
  have hfourth : d = UInt8.ofNat (v % 64 + 0x80) := eq_ofNat (by omega)
  rw [← hfirst, ← hsecond, ← hthird, ← hfourth]

theorem first_of_width_one {first : UInt8} (h : 1 = width first) : first.toNat < 0x80 := by
  rw [width_eq] at h
  split_ifs at h <;> omega

theorem first_of_width_two {first : UInt8} (h : 2 = width first) :
    0xC2 ≤ first.toNat ∧ first.toNat < 0xE0 := by
  rw [width_eq] at h
  split_ifs at h <;> omega

theorem first_of_width_three {first : UInt8} (h : 3 = width first) :
    0xE0 ≤ first.toNat ∧ first.toNat < 0xF0 := by
  rw [width_eq] at h
  split_ifs at h <;> omega

theorem first_of_width_four {first : UInt8} (h : 4 = width first) :
    0xF0 ≤ first.toNat ∧ first.toNat < 0xF5 := by
  rw [width_eq] at h
  split_ifs at h <;> omega

theorem width_le (first : UInt8) : width first ≤ 4 := by
  rw [width_eq]
  split_ifs <;> omega

/-- Octets are read as a character only if they are the octets of that character. -/
theorem eq_encodeChar_of_read {octets : Bytes} {c : Char} (h : read octets = .character c) :
    octets = String.utf8EncodeChar c := by
  cases octets with
  | nil => simp [read] at h
  | cons first rest =>
      simp only [read] at h
      split at h
      case isFalse => simp at h
      case isTrue hgo =>
        split at h
        case isFalse => simp at h
        case isTrue hlength =>
          simp only [Bool.and_eq_true, decide_eq_true_eq] at hgo
          obtain ⟨-, hcontinues⟩ := hgo
          simp only [Reading.character.injEq] at h
          subst h
          match rest, hlength, hcontinues with
          | [], hlength, _ =>
            simp only [List.foldl_nil, leadBits, ← hlength]
            exact (encodeChar_one (first_of_width_one hlength)).symm
          | [b], hlength, hcontinues =>
            simp only [continues, List.all_nil, Bool.and_true, mayFollow_iff] at hcontinues
            simp only [List.foldl_cons, List.foldl_nil, leadBits, ← hlength]
            exact (encodeChar_two (first_of_width_two hlength) ⟨hcontinues.1, hcontinues.2.1⟩).symm
          | [b, d], hlength, hcontinues =>
            simp only [continues, List.all_cons, List.all_nil, Bool.and_true, Bool.and_eq_true,
              isContinuation_iff] at hcontinues
            simp only [List.foldl_cons, List.foldl_nil, leadBits, ← hlength]
            exact (encodeChar_three (first_of_width_three hlength) hcontinues.1 hcontinues.2).symm
          | [b, d, e], hlength, hcontinues =>
            simp only [continues, List.all_cons, List.all_nil, Bool.and_true, Bool.and_eq_true,
              isContinuation_iff] at hcontinues
            simp only [List.foldl_cons, List.foldl_nil, leadBits, ← hlength]
            exact (encodeChar_four (first_of_width_four hlength) hcontinues.1 hcontinues.2.1
              hcontinues.2.2).symm
          | b :: d :: e :: f :: more, hlength, _ =>
            have hmost := width_le first
            simp only [List.length_cons] at hlength
            omega

/-- A low octet stands in the octets of its own character only. -/
theorem toNat_of_mem_encodeChar {c : Char} {octet : UInt8}
    (h : octet ∈ String.utf8EncodeChar c) (hlow : octet.toNat < 0x80) :
    c.toNat = octet.toNat := by
  have high : ∀ v, octet ≠ UInt8.ofNat (v % 64 + 0x80) := by
    intro v heq
    rw [heq, UInt8.toNat_ofNat'] at hlow
    omega
  have hvalue : c.val.toNat = c.toNat := rfl
  simp only [String.utf8EncodeChar, hvalue] at h
  split_ifs at h with hone htwo hthree
  · rw [List.mem_singleton.mp h, UInt8.toNat_ofNat', Nat.mod_eq_of_lt (by omega)]
  all_goals
    simp only [List.mem_cons, List.not_mem_nil, or_false, high, or_self] at h
    rw [h, UInt8.toNat_ofNat'] at hlow
    omega

end LineShell.Utf8
