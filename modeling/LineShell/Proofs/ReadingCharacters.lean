import LineShell.Proofs.CharacterOctets

/-!
# Reading the octets of a character

The octets of a character are read as this character, and every proper beginning of them as the
beginning of one. So a reader that takes octets one at a time has to wait for the last of them and
for no more, and what a text was written as is read as this text.

## Implementation notes

`Utf8.IsWhole` says of octets that the table admits them as a character. The octets of a character
are whole by arithmetic on its value, one case for each number of octets; beginnings of whole octets
need no arithmetic any more.
-/

namespace LineShell.Utf8

/-- A first octet with as many octets behind it as it asks for, all of which may stand there. -/
structure IsWhole (first : UInt8) (rest : Bytes) : Prop where
  width : width first = rest.length + 1
  continues : continues first rest = true

variable {first : UInt8} {rest : Bytes}

theorem IsWhole.read (h : IsWhole first rest) :
    read (first :: rest) = .character (Char.ofNat
      (rest.foldl (fun value octet => value * 64 + octet.toNat % 64) (leadBits first))) := by
  simp [Utf8.read, h.width, h.continues]

/-- Octets that may stand behind a first one may do so without the last of them. -/
theorem continues_of_append {octets more : Bytes} (h : continues first (octets ++ more) = true) :
    continues first octets = true := by
  cases octets with
  | nil => rfl
  | cons second rest =>
      simp only [List.cons_append, continues, List.all_append, Bool.and_eq_true] at h ⊢
      exact ⟨h.1, h.2.1⟩

/-- A beginning that lacks some of the octets is unfinished. -/
theorem IsWhole.read_of_append {octets more : Bytes} (h : IsWhole first (octets ++ more))
    (hmore : more ≠ []) : Utf8.read (first :: octets) = .unfinished := by
  have hwidth := h.width
  rw [List.length_append] at hwidth
  have hmissing : 0 < more.length := List.length_pos_iff.mpr hmore
  have hfits : octets.length < Utf8.width first := by omega
  have hshort : ¬octets.length + 1 = Utf8.width first := by omega
  have hcontinues := continues_of_append h.continues
  simp only [Utf8.read, hfits, hcontinues, hshort, decide_true, Bool.and_self, if_true, if_false]

theorem toNat_ofNat_of_lt {n : Nat} (h : n < 256) : (UInt8.ofNat n).toNat = n := by
  rw [UInt8.toNat_ofNat', Nat.mod_eq_of_lt h]

variable {v : Nat}

theorem isWhole_one (h : v ≤ 0x7F) : IsWhole (UInt8.ofNat v) [] := by
  refine ⟨?_, rfl⟩
  rw [width_eq, toNat_ofNat_of_lt (by omega), if_pos (by omega)]
  rfl

theorem isWhole_two (hlow : 0x7F < v) (hhigh : v ≤ 0x7FF) :
    IsWhole (UInt8.ofNat (v / 64 % 32 + 0xC0)) [UInt8.ofNat (v % 64 + 0x80)] := by
  constructor
  · rw [width_eq, toNat_ofNat_of_lt (by omega), if_neg (by omega), if_neg (by omega),
      if_pos (by omega)]
    rfl
  · simp only [continues, List.all_nil, Bool.and_true, mayFollow_iff]
    rw [toNat_ofNat_of_lt (by omega), toNat_ofNat_of_lt (by omega)]
    omega

/-- Between the second octet and the last one no character is left out but the surrogates. -/
theorem isWhole_three (hlow : 0x7FF < v) (hhigh : v ≤ 0xFFFF)
    (hvalid : v < 0xD800 ∨ 0xDFFF < v) :
    IsWhole (UInt8.ofNat (v / 4096 % 16 + 0xE0))
      [UInt8.ofNat (v / 64 % 64 + 0x80), UInt8.ofNat (v % 64 + 0x80)] := by
  constructor
  · rw [width_eq, toNat_ofNat_of_lt (by omega), if_neg (by omega), if_neg (by omega),
      if_neg (by omega), if_pos (by omega)]
    rfl
  · simp only [continues, List.all_cons, List.all_nil, Bool.and_true, Bool.and_eq_true,
      mayFollow_iff, isContinuation_iff]
    rw [toNat_ofNat_of_lt (by omega), toNat_ofNat_of_lt (by omega), toNat_ofNat_of_lt (by omega)]
    omega

theorem isWhole_four (hlow : 0xFFFF < v) (hhigh : v < 0x110000) :
    IsWhole (UInt8.ofNat (v / 262144 % 8 + 0xF0))
      [UInt8.ofNat (v / 4096 % 64 + 0x80), UInt8.ofNat (v / 64 % 64 + 0x80),
        UInt8.ofNat (v % 64 + 0x80)] := by
  constructor
  · rw [width_eq, toNat_ofNat_of_lt (by omega), if_neg (by omega), if_neg (by omega),
      if_neg (by omega), if_neg (by omega), if_pos (by omega)]
    rfl
  · simp only [continues, List.all_cons, List.all_nil, Bool.and_true, Bool.and_eq_true,
      mayFollow_iff, isContinuation_iff]
    rw [toNat_ofNat_of_lt (by omega), toNat_ofNat_of_lt (by omega), toNat_ofNat_of_lt (by omega),
      toNat_ofNat_of_lt (by omega)]
    omega

/-- The octets of a character are whole. -/
theorem exists_isWhole (c : Char) :
    ∃ first rest, String.utf8EncodeChar c = first :: rest ∧ IsWhole first rest := by
  have hvalid : c.toNat.isValidChar := c.valid
  have hencode := encodeChar_ofNat hvalid
  rw [Char.ofNat_toNat] at hencode
  have hrange : c.toNat < 0xD800 ∨ 0xDFFF < c.toNat ∧ c.toNat < 0x110000 := hvalid
  rw [hencode]
  split_ifs with hone htwo hthree
  · exact ⟨_, _, rfl, isWhole_one hone⟩
  · exact ⟨_, _, rfl, isWhole_two (by omega) htwo⟩
  · exact ⟨_, _, rfl, isWhole_three (by omega) hthree (by omega)⟩
  · exact ⟨_, _, rfl, isWhole_four (by omega) (by omega)⟩

theorem encodeChar_injective {c d : Char}
    (h : String.utf8EncodeChar c = String.utf8EncodeChar d) : c = d := by
  have hsame : String.ofList [c] = String.ofList [d] := by
    apply String.toByteArray_inj.mp
    simp [List.utf8Encode, h]
  exact List.singleton_inj.mp (String.ofList_injective hsame)

/-- The octets of a character are read as this character. -/
theorem read_encodeChar (c : Char) : read (String.utf8EncodeChar c) = .character c := by
  obtain ⟨first, rest, hencode, hwhole⟩ := exists_isWhole c
  have hread := hwhole.read
  rw [← hencode] at hread
  rw [hread, encodeChar_injective (eq_encodeChar_of_read hread)]

/-- A proper beginning of the octets of a character is unfinished. -/
theorem read_of_append_eq_encodeChar {octets more : Bytes} {c : Char}
    (h : octets ++ more = String.utf8EncodeChar c) (hmore : more ≠ []) :
    read octets = .unfinished := by
  obtain ⟨first, rest, hencode, hwhole⟩ := exists_isWhole c
  rw [hencode] at h
  cases octets with
  | nil => rfl
  | cons octet octets =>
      obtain ⟨rfl, rfl⟩ := List.cons.inj h
      exact hwhole.read_of_append hmore

/-- The octets of a character, when some of them have been read. -/
theorem foldlM_push?_encodeChar {text : String} {c : Char} {pending more : Bytes}
    (hencode : pending ++ more = String.utf8EncodeChar c) (hmore : more ≠ []) :
    more.foldlM Partial.push? ⟨text, pending⟩ = some ⟨text.push c, []⟩ := by
  induction more generalizing pending with
  | nil => exact absurd rfl hmore
  | cons octet rest ih =>
      have hnext : pending ++ [octet] ++ rest = String.utf8EncodeChar c := by simpa using hencode
      rw [List.foldlM_cons]
      cases rest with
      | nil =>
          have hread : read (pending ++ [octet]) = .character c := by
            rw [hencode, read_encodeChar]
          simp [Partial.push?, hread]
      | cons second rest =>
          have hread := read_of_append_eq_encodeChar hnext (List.cons_ne_nil second rest)
          simp only [Partial.push?, hread, Option.bind_eq_bind, Option.bind_some]
          exact ih hnext (List.cons_ne_nil second rest)

theorem foldlM_push?_encode (text : String) (characters : List Char) :
    (encode characters).foldlM Partial.push? ⟨text, []⟩ =
      some ⟨text ++ String.ofList characters, []⟩ := by
  induction characters generalizing text with
  | nil => simp
  | cons c rest ih =>
      obtain ⟨first, more, hencode, -⟩ := exists_isWhole c
      have hne : String.utf8EncodeChar c ≠ [] := by simp [hencode]
      rw [encode_cons, List.foldlM_append, foldlM_push?_encodeChar (List.nil_append _) hne]
      have hpush : text.push c ++ String.ofList rest = text ++ String.ofList (c :: rest) := by
        apply String.toList_injective
        simp
      simpa [hpush] using ih (text.push c)

/-- The octets of a text spell this text. -/
theorem decode_octets (text : String) : decode (octets text) = some text := by
  simp [decode, octets, foldlM_push?_encode]

/-- What has been read so far, written as octets again. -/
def Partial.octets (state : Partial) : Bytes := LineShell.octets state.text ++ state.pending

theorem octets_of_push? {state next : Partial} {octet : UInt8}
    (h : state.push? octet = some next) : next.octets = state.octets ++ [octet] := by
  unfold Partial.push? at h
  split at h
  case h_1 c hread =>
    obtain rfl := Option.some.inj h
    simp [Partial.octets, LineShell.octets, ← eq_encodeChar_of_read hread]
  case h_2 =>
    obtain rfl := Option.some.inj h
    simp [Partial.octets]
  case h_3 => simp at h

theorem octets_of_foldlM_push? {state final : Partial} {octets : Bytes}
    (h : octets.foldlM Partial.push? state = some final) :
    final.octets = state.octets ++ octets := by
  induction octets generalizing state with
  | nil =>
      obtain rfl := Option.some.inj h
      rw [List.append_nil]
  | cons octet rest ih =>
      rw [List.foldlM_cons] at h
      obtain ⟨next, hnext, hrest⟩ := Option.bind_eq_some_iff.mp h
      rw [ih hrest, octets_of_push? hnext, List.append_assoc, List.singleton_append]

/-- Octets spell a text only if they are its octets. -/
theorem decode_eq_some_iff {octets : Bytes} {text : String} :
    decode octets = some text ↔ octets = LineShell.octets text := by
  constructor
  · intro hdecode
    unfold decode at hdecode
    split at hdecode
    case h_1 read hread =>
      obtain rfl := Option.some.inj hdecode
      simpa [Partial.octets, LineShell.octets] using (octets_of_foldlM_push? hread).symm
    case h_2 => simp at hdecode
  · rintro rfl
    exact decode_octets text

/-- As long as every octet can belong to a character, nothing has to be replaced. -/
theorem foldl_pushLossy_of_foldlM {state final : Partial} {octets : Bytes}
    (h : octets.foldlM Partial.push? state = some final) :
    octets.foldl Partial.pushLossy state = final := by
  induction octets generalizing state with
  | nil => exact Option.some.inj h
  | cons octet rest ih =>
      rw [List.foldlM_cons] at h
      obtain ⟨next, hnext, hrest⟩ := Option.bind_eq_some_iff.mp h
      rw [List.foldl_cons, Partial.pushLossy, hnext]
      exact ih hrest

/-- In the octets of a text nothing is replaced. -/
theorem lossy_octets (text : String) : lossy (octets text) = text := by
  have hread := foldl_pushLossy_of_foldlM (foldlM_push?_encode "" text.toList)
  simp [lossy, octets, hread]

end LineShell.Utf8
