import LineShell.Proofs.ReadingCharacters
import LineShell.Text.Path

/-!
# The octets of a path that is text

A path that is text is read as its octets. The characters that matter in a path are written as one
low octet each, and a low octet stands in the octets of no other character. So it is the same to cut
a text and to cut its octets, and to join two paths and to join their octets.
-/

namespace LineShell

section

variable {α : Type} [DecidableEq α] {separator : α} {text piece : List α}

theorem cutAt_ne_nil (separator : α) (text : List α) : cutAt separator text ≠ [] := by
  cases text with
  | nil => simp [cutAt]
  | cons c rest =>
      unfold cutAt
      split
      · simp
      · split <;> simp

theorem cutAt_append (separator : α) (a b : List α) :
    cutAt separator (a ++ separator :: b) = cutAt separator a ++ cutAt separator b := by
  induction a with
  | nil => simp [cutAt]
  | cons c rest ih =>
      by_cases hc : c = separator
      · subst hc
        simp [cutAt, ih]
      · simp only [List.cons_append, cutAt, if_neg hc, ih]
        cases hpieces : cutAt separator rest with
        | nil => exact absurd hpieces (cutAt_ne_nil separator rest)
        | cons piece pieces => rfl

/-- What has no separator in it belongs to the first piece of what stands behind it. -/
theorem cutAt_append_of_not_mem {pieces : List (List α)} {a b : List α} (h : separator ∉ a)
    (hcut : cutAt separator b = piece :: pieces) :
    cutAt separator (a ++ b) = (a ++ piece) :: pieces := by
  induction a with
  | nil => exact hcut
  | cons c rest ih =>
      rw [List.mem_cons, not_or] at h
      rw [List.cons_append, cutAt, if_neg (Ne.symm h.1), ih h.2]
      rfl

theorem cutAt_of_not_mem (h : separator ∉ text) : cutAt separator text = [text] := by
  have hcut : cutAt separator (text ++ []) = [text ++ []] := cutAt_append_of_not_mem h rfl
  rwa [List.append_nil] at hcut

/-- No piece has the separator. -/
theorem not_mem_of_mem_cutAt (hpiece : piece ∈ cutAt separator text) : separator ∉ piece := by
  induction text generalizing piece with
  | nil =>
      obtain rfl := List.mem_singleton.mp hpiece
      exact List.not_mem_nil
  | cons c rest ih =>
      rw [cutAt] at hpiece
      split at hpiece
      · rcases List.mem_cons.mp hpiece with rfl | hmore
        · exact List.not_mem_nil
        · exact ih hmore
      · rename_i hother
        obtain ⟨first, more, hcut⟩ := List.exists_cons_of_ne_nil (cutAt_ne_nil separator rest)
        rw [hcut] at hpiece ih
        rcases List.mem_cons.mp hpiece with rfl | hmore
        · have hfirst := ih List.mem_cons_self
          simp [hfirst, Ne.symm hother]
        · exact ih (List.mem_cons_of_mem _ hmore)

end

theorem octets_append (a b : String) : octets (a ++ b) = octets a ++ octets b := by
  simp [octets]

theorem octets_injective : Function.Injective octets := by
  intro a b hsame
  have hdecode := congrArg Utf8.decode hsame
  rwa [Utf8.decode_octets, Utf8.decode_octets, Option.some.injEq] at hdecode

theorem octets_eq_nil_iff {text : String} : octets text = [] ↔ text = "" :=
  octets_injective.eq_iff (b := "")

/-- The octets of a text spell a name that is this text. -/
@[simp] theorem Name.ofOctets_octets (text : String) :
    Name.ofOctets (LineShell.octets text) = .text text := by
  rw [Name.ofOctets, Utf8.decode_octets]

/-- A name is spelled with the octets that it was read from. -/
@[simp] theorem Name.spelling_ofOctets (spelling : Bytes) :
    (Name.ofOctets spelling).spelling = spelling := by
  unfold Name.ofOctets
  split
  case h_1 text hdecode => exact (Utf8.decode_eq_some_iff.mp hdecode).symm
  case h_2 => rfl

namespace Utf8

theorem encodeChar_ne_nil (c : Char) : String.utf8EncodeChar c ≠ [] := by
  obtain ⟨first, rest, hencode, -⟩ := exists_isWhole c
  simp [hencode]

/-- A character that is written as one low octet. -/
structure IsOctet (c : Char) (octet : UInt8) : Prop where
  low : octet.toNat < 0x80
  encode : String.utf8EncodeChar c = [octet]

theorem isOctet_slash : IsOctet '/' RawPath.slash := ⟨by decide, by decide⟩

theorem isOctet_nul : IsOctet '\x00' 0 := ⟨by decide, by decide⟩

namespace IsOctet

variable {c : Char} {octet : UInt8} {text : List Char}

theorem mem_encodeChar_iff (h : IsOctet c octet) {other : Char} :
    octet ∈ String.utf8EncodeChar other ↔ other = c := by
  constructor
  · intro hmem
    have hself : octet ∈ String.utf8EncodeChar c := by simp [h.encode]
    apply Char.toNat_inj.mp
    rw [toNat_of_mem_encodeChar hmem h.low, toNat_of_mem_encodeChar hself h.low]
  · rintro rfl
    simp [h.encode]

theorem mem_encode_iff (h : IsOctet c octet) : octet ∈ Utf8.encode text ↔ c ∈ text := by
  simp [Utf8.encode, List.mem_flatMap, h.mem_encodeChar_iff]

theorem head?_encode_iff (h : IsOctet c octet) :
    (Utf8.encode text).head? = some octet ↔ text.head? = some c := by
  cases text with
  | nil => simp
  | cons other rest =>
      rw [List.head?_cons, Option.some.injEq, ← h.mem_encodeChar_iff]
      obtain ⟨first, more, hencode⟩ := List.exists_cons_of_ne_nil (encodeChar_ne_nil other)
      constructor
      · intro hhead
        rw [encode_cons, hencode, List.cons_append, List.head?_cons, Option.some.injEq] at hhead
        simp [hencode, hhead]
      · intro hmem
        simp [h.mem_encodeChar_iff.mp hmem, h.encode]

/-- The octets of a text are cut where the text is cut. -/
theorem cutAt_encode (h : IsOctet c octet) (text : List Char) :
    cutAt octet (Utf8.encode text) = (cutAt c text).map Utf8.encode := by
  induction text with
  | nil => rfl
  | cons other rest ih =>
      rw [encode_cons, cutAt]
      split
      case isTrue hsame => rw [hsame, h.encode, List.singleton_append, cutAt, if_pos rfl, ih]; rfl
      case isFalse hother =>
        obtain ⟨piece, pieces, hcut⟩ := List.exists_cons_of_ne_nil (cutAt_ne_nil c rest)
        rw [hcut, List.map_cons] at ih
        rw [hcut, cutAt_append_of_not_mem (mt h.mem_encodeChar_iff.mp hother) ih]
        rfl

end IsOctet

end Utf8

namespace Path

variable {path : String}

theorem isAbsolute_iff_head? : isAbsolute path = true ↔ path.toList.head? = some '/' := by
  rw [isAbsolute, RawPath.isAbsolute, beq_iff_eq, octets, Utf8.isOctet_slash.head?_encode_iff]

/-- A path that is text is cut into pieces that are texts. -/
theorem parts_eq (path : String) :
    parts path = (piecesOf '/' path).filterMap fun piece => Part.ofPiece? (octets piece) := by
  have hpart : (fun piece => Part.ofPiece? (octets piece)) ∘ String.ofList =
      Part.ofPiece? ∘ Utf8.encode := by
    funext piece
    simp [octets]
  rw [parts, RawPath.parts, octets, Utf8.isOctet_slash.cutAt_encode, piecesOf,
    List.filterMap_map, List.filterMap_map, hpart]

theorem octets_join (base path : String) :
    octets (join base path) = RawPath.join (octets base) (octets path) := by
  have hslash : octets "/" = [RawPath.slash] := by decide
  unfold join RawPath.join isAbsolute endsInSlash
  simp only [octets_eq_nil_iff]
  split
  · rfl
  · split
    · exact octets_append base path
    · rw [octets_append, octets_append, hslash, List.append_assoc, List.singleton_append]

end Path

end LineShell
