import LineShell.Proofs.AskedPaths
import LineShell.Proofs.PathOctets

/-!
# Names with a slash

A name is looked for along the search path if it has one part, and it stands for itself if it has
more or is absolute. Empty parts and dots do not count behind the first part. So a slash makes a
name stand for itself unless nothing but slashes and dots comes behind it.
-/

namespace LineShell

namespace Path

variable {name first : String} {rest : List String}

/-- Names of one part, behind which there may be slashes and dots. -/
def isOnePart (name : String) : Bool :=
  match piecesOf '/' name with
  | [] => false
  | first :: rest => first != "" && rest.all fun piece => piece == "" || piece == "."

theorem exists_piecesOf (separator : Char) (text : String) :
    ∃ first rest, piecesOf separator text = first :: rest := by
  obtain ⟨piece, pieces, hcut⟩ :=
    List.exists_cons_of_ne_nil (cutAt_ne_nil separator text.toList)
  exact ⟨String.ofList piece, pieces.map String.ofList, by rw [piecesOf, hcut, List.map_cons]⟩

/-- A path is absolute if nothing stands before its first slash. -/
theorem isAbsolute_iff (hpieces : piecesOf '/' name = first :: rest) (hname : name ≠ "") :
    isAbsolute name = true ↔ first = "" := by
  obtain ⟨c, characters, hcharacters⟩ :=
    List.exists_cons_of_ne_nil fun hnil => hname (String.toList_eq_nil_iff.mp hnil)
  rw [piecesOf, hcharacters, cutAt] at hpieces
  rw [isAbsolute_iff_head?, hcharacters, List.head?_cons, Option.some.injEq]
  split at hpieces
  case isTrue hslash =>
    obtain ⟨rfl, -⟩ := List.cons.inj hpieces
    exact iff_of_true hslash rfl
  case isFalse hother =>
    refine iff_of_false hother ?_
    rintro rfl
    split at hpieces <;> simp at hpieces

theorem ofPiece?_octets_cases (piece : String) :
    (piece = "" ∧ Part.ofPiece? (octets piece) = none) ∨
      (piece = "." ∧ Part.ofPiece? (octets piece) = some .here) ∨
      piece ≠ "" ∧ piece ≠ "." ∧
        ∃ part, Part.ofPiece? (octets piece) = some part ∧ part ≠ .here := by
  have hspelled (other : String) : octets piece = octets other ↔ piece = other :=
    octets_injective.eq_iff
  have hdot : octets piece = [0x2E] ↔ piece = "." := hspelled "."
  have habove : octets piece = [0x2E, 0x2E] ↔ piece = ".." := hspelled ".."
  simp only [Part.ofPiece?, octets_eq_nil_iff, hdot, habove]
  by_cases hempty : piece = ""
  · exact .inl ⟨hempty, if_pos hempty⟩
  · by_cases hhere : piece = "."
    · exact .inr (.inl ⟨hhere, by rw [if_neg hempty, if_pos hhere]⟩)
    · refine .inr (.inr ⟨hempty, hhere, ?_⟩)
      rw [if_neg hempty, if_neg hhere]
      split <;> exact ⟨_, rfl, by simp⟩

/-- Only slashes and dots make no part that counts. -/
theorem filter_parts_eq_nil_iff :
    (rest.filterMap fun piece => Part.ofPiece? (octets piece)).filter (· != .here) = [] ↔
      ∀ piece ∈ rest, piece = "" ∨ piece = "." := by
  simp only [List.filter_eq_nil_iff, List.mem_filterMap, bne_iff_ne, ne_eq, Decidable.not_not,
    forall_exists_index, and_imp]
  constructor
  · intro hparts piece hpiece
    rcases ofPiece?_octets_cases piece with
      ⟨hempty, -⟩ | ⟨hdot, -⟩ | ⟨-, -, part, hpart, hcounts⟩
    · exact .inl hempty
    · exact .inr hdot
    · exact absurd (hparts part piece hpiece hpart) hcounts
  · intro hpieces part piece hpiece hpart
    rcases hpieces piece hpiece with rfl | rfl
    · simp [octets, Part.ofPiece?] at hpart
    · exact (Option.some.inj hpart).symm

/-- The first part of a relative path counts even if it is a dot. -/
theorem components_eq (hrelative : isAbsolute name = false)
    (hpieces : piecesOf '/' name = first :: rest) (hfirst : first ≠ "") :
    ∃ part, components name =
      part :: (rest.filterMap fun piece => Part.ofPiece? (octets piece)).filter (· != .here) := by
  have hparts (part : Part) (hpart : Part.ofPiece? (octets first) = some part) :
      parts name = part :: rest.filterMap fun piece => Part.ofPiece? (octets piece) := by
    rw [parts_eq, hpieces, List.filterMap_cons, hpart]
  rcases ofPiece?_octets_cases first with ⟨hempty, -⟩ | ⟨-, hhere⟩ | ⟨-, -, part, hpart, hcounts⟩
  · exact absurd hempty hfirst
  · exact ⟨.here, by simp [components, hrelative, hparts .here hhere]⟩
  · refine ⟨part, ?_⟩
    cases part with
    | here => exact absurd rfl hcounts
    | above | name => simp [components, hrelative, hparts _ hpart]

end Path

namespace Lookup

variable {volume : Volume} {cwd : WorkingDirectory} {env : Environment} {name directory : String}

/-- A name stands for itself unless it has one part. -/
theorem standsForItself_eq (hname : name ≠ "") :
    standsForItself name = !Path.isOnePart name := by
  obtain ⟨first, rest, hpieces⟩ := Path.exists_piecesOf '/' name
  have habsolute := Path.isAbsolute_iff hpieces hname
  by_cases hfirst : first = ""
  · simp [standsForItself, Path.isOnePart, hpieces, habsolute.mpr hfirst, hfirst]
  · have hrelative : Path.isAbsolute name = false := by
      rw [Bool.eq_false_iff]
      exact fun h => hfirst (habsolute.mp h)
    obtain ⟨part, hcomponents⟩ := Path.components_eq hrelative hpieces hfirst
    simp only [standsForItself, hrelative, hcomponents, Bool.false_or, Path.isOnePart, hpieces]
    by_cases hrest : ∀ piece ∈ rest, piece = "" ∨ piece = "."
    · have hall : rest.all (fun piece => piece == "" || piece == ".") = true := by
        simpa using hrest
      simp [Path.filter_parts_eq_nil_iff.mpr hrest, hfirst, hall]
    · have hsome := List.length_pos_iff.mpr (mt Path.filter_parts_eq_nil_iff.mp hrest)
      have hall : rest.all (fun piece => piece == "" || piece == ".") = false := by
        rw [Bool.eq_false_iff]
        exact fun h => hrest (by simpa using h)
      rw [List.length_cons, hall, decide_eq_true (by omega)]
      simp

theorem ne_empty_of_mem_searched (h : directory ∈ searched env) : directory ≠ "" := by
  unfold searched at h
  cases hpath : env.searchPath with
  | none => simp [hpath] at h
  | some searchPath =>
      simp only [hpath, Option.map_some, Option.getD_some, directories, List.mem_filter] at h
      simpa using h.2

/-- A relative name joined to a directory is not the name. -/
theorem join_ne (hrelative : Path.isAbsolute name = false) (hdirectory : directory ≠ "") :
    Path.join directory name ≠ name := by
  intro hsame
  have hpositive : 0 < directory.toList.length :=
    List.length_pos_iff.mpr fun hnil => hdirectory (String.toList_eq_nil_iff.mp hnil)
  have hlength := congrArg (fun path : String => path.toList.length) hsame
  unfold Path.join at hlength
  rw [hrelative] at hlength
  split at hlength
  · simp_all
  · split at hlength
    · simp only [String.toList_append, List.length_append] at hlength
      omega
    · simp only [String.toList_append, List.length_append] at hlength
      omega

/-- A name with a slash stands for itself, whatever the search path is, unless nothing but slashes
and dots comes behind its first part. If this is so, the name is looked for in the directories of
the search path only, and it is never found as it is spelled. -/
theorem find?_of_slash (hslash : '/' ∈ name.toList) (volume : Volume) (cwd : WorkingDirectory) :
    (Path.isOnePart name = false → ∀ env, find? volume cwd env name =
      if volume.reaches cwd name then some name else none) ∧
    (Path.isOnePart name = true → ∀ env,
      find? volume cwd env name =
          ((searched env).map fun directory => Path.join directory name).find?
            (volume.reaches cwd) ∧
        find? volume cwd env name ≠ some name) := by
  have hname : name ≠ "" := by
    rintro rfl
    simp at hslash
  have hstands := standsForItself_eq hname
  constructor
  · intro hmore env
    rw [hmore] at hstands
    simp [find?, hname, hstands]
  · intro hone env
    rw [hone] at hstands
    have hfind : find? volume cwd env name =
        ((searched env).map fun directory => Path.join directory name).find?
          (volume.reaches cwd) := by
      simp [find?_eq_paths, paths, hname, hstands]
    refine ⟨hfind, fun hself => ?_⟩
    rw [hfind] at hself
    obtain ⟨directory, hdirectory, hjoin⟩ := List.mem_map.mp (List.mem_of_find?_eq_some hself)
    have hrelative : Path.isAbsolute name = false := by
      simp only [standsForItself, Bool.not_true, Bool.or_eq_false_iff] at hstands
      exact hstands.1
    exact join_ne hrelative (ne_empty_of_mem_searched hdirectory) hjoin

/-- A volume with one directory. -/
def oneDirectory : Volume := Volume.empty.create [.text "d"] .newDirectory

/-- A path with two parts is found as it is; with only a slash behind its first part it is looked
for in the search path. -/
theorem find?_of_slash_of_directory :
    find? oneDirectory .root .empty "d/.." = some "d/.." ∧
      find? oneDirectory .root (.ofList [("PATH", "/")]) "d/" = some "/d/" ∧
      find? oneDirectory .root (.ofList [("PATH", "/")]) "d/" ≠ some "d/" := by
  obtain ⟨htwo, -⟩ := @find?_of_slash "d/.." (by decide) oneDirectory .root
  obtain ⟨-, hone⟩ := @find?_of_slash "d/" (by decide) oneDirectory .root
  refine ⟨(htwo (by decide +kernel) .empty).trans (by decide +kernel), ?_⟩
  obtain ⟨hfind, hself⟩ := hone (by decide +kernel) (.ofList [("PATH", "/")])
  exact ⟨hfind.trans (by decide +kernel), hself⟩

/-- A name with a slash may be looked for in the search path: what it leads to depends on the search
path, and it is not found although it leads to something. -/
theorem not_forall_find?_of_slash :
    (¬ ∀ (volume : Volume) (cwd : WorkingDirectory) (env other : Environment) (name : String),
      '/' ∈ name.toList → find? volume cwd env name = find? volume cwd other name) ∧
    ¬ ∀ (volume : Volume) (cwd : WorkingDirectory) (env : Environment) (name : String),
      '/' ∈ name.toList →
      find? volume cwd env name = if volume.reaches cwd name then some name else none := by
  constructor
  · intro h
    have hsame := h oneDirectory .root (.ofList [("PATH", "/")]) .empty "d/" (by decide)
    revert hsame
    decide +kernel
  · intro h
    have hself := h oneDirectory .root .empty "d/" (by decide)
    revert hself
    decide +kernel

end Lookup

end LineShell
