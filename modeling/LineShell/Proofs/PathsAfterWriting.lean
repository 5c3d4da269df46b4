import LineShell.Proofs.JoinedPaths

/-!
# Where paths lead after a file was written

Writing a file changes one place of the volume, where nothing or a file was before. No path leads
through such a place, so everything that a path to the file led through is still the same, and the
path leads to the file.

## Implementation notes

`Volume.Changes` says how the two volumes differ. `Halt.settled` is what becomes of a halt at the
place of the file. A path that may create a file follows every link as any other path does, unless a
slash ends it.
-/

namespace LineShell

/-- A destination at a place, for which no slash asks for a directory. -/
def Destination.IsAt (place : Location) : Destination → Prop
  | .present spot _ slash | .vacant spot slash => spot = place ∧ slash = false
  | .removed _ => False

/-- A destination that tells what the volume has there. -/
def Destination.Agrees (v : Volume) : Destination → Prop
  | .present place entry _ => v.find? place = some entry
  | .vacant place _ => v.find? place = none
  | .removed _ => True

namespace Volume

variable {v w : Volume} {place here : Location} {entry : Entry} {parts : List Path.Part}
  {cwd other : WorkingDirectory} {path : String} {serial : Nat} {contents : Bytes}

theorem find?_of_descend_missing {spot : Location}
    (h : v.descend here parts = .missing spot) : v.find? spot = none := by
  fun_induction Volume.descend v here parts with
  | case1 | case2 | case3 | case4 | case7 | case9 | case10 => simp at h
  | case5 here rest entry hhere hdirectory henter ih => exact ih h
  | case6 here rest entry hhere hdirectory henter ih => exact ih h
  | case8 here rest entry hhere hdirectory henter name place hlength hplace hlast =>
      obtain rfl := Halt.missing.inj h
      exact hplace
  | case11 here rest entry hhere hdirectory henter name place hlength found hlink hplace ih =>
      exact ih h

/-- What is said about the end of a walk is what the volume has there. -/
theorem agrees_of_resolve {last : LastLink} {links : Nat} {slash : Bool}
    {destination : Destination}
    (hresolve : v.resolve last links here parts slash = .ok destination) :
    destination.Agrees v := by
  fun_induction Volume.resolve v last links here parts slash with
  | case1 links here parts slash spot hhalt entry hspot =>
      obtain rfl := Except.ok.inj hresolve
      exact hspot
  | case3 links here parts slash spot hhalt =>
      obtain rfl := Except.ok.inj hresolve
      exact find?_of_descend_missing hhalt
  | case5 links here parts slash spot target rest hhalt hstops entry hspot =>
      obtain rfl := Except.ok.inj hresolve
      exact hspot
  | case8 here parts slash spot target rest hhalt hgo links ih => exact ih hresolve
  | case2 | case4 | case6 | case7 => simp at hresolve

theorem agrees_of_locate {last : LastLink} {destination : Destination}
    (hlocate : v.locate cwd path last = .ok destination) : destination.Agrees v := by
  obtain ⟨-, -, -, ⟨directory, -, rfl⟩ | ⟨here, parts, -, hresolve⟩⟩ := locate_iff.mp hlocate
  · trivial
  · exact agrees_of_resolve hresolve

/-- A volume with a file in a place where nothing or a file was in another one. -/
structure Changes (v w : Volume) (place : Location) (serial : Nat) (contents : Bytes) : Prop where
  before : ∀ entry, v.find? place = some entry →
    ∃ old permissions, entry.node = .file old permissions
  after : ∃ permissions, w.find? place = some ⟨serial, .file contents permissions⟩
  others : ∀ spot, spot ≠ place → w.find? spot = v.find? spot

/-- A halt when the place where nothing was holds a file. -/
def Halt.settled (place : Location) : Halt → Halt
  | .missing spot => if spot = place then .found spot else .missing spot
  | halt => halt

/-- What is no file has not changed. -/
theorem Changes.find?_of_not_file {spot : Location}
    (h : Changes v w place serial contents) (hspot : v.find? spot = some entry)
    (hnode : ∀ old permissions, entry.node ≠ .file old permissions) :
    w.find? spot = some entry := by
  rw [h.others spot ?_, hspot]
  rintro rfl
  obtain ⟨old, permissions, hfile⟩ := h.before entry hspot
  exact hnode old permissions hfile

theorem Changes.find?_of_directory
    (h : Changes v w place serial contents) (hhere : v.find? here = some entry)
    (hdirectory : ¬(!entry.node.isDirectory) = true) : w.find? here = some entry := by
  refine h.find?_of_not_file hhere ?_
  intro old permissions hfile
  simp [hfile, Node.isDirectory] at hdirectory

/-- Following parts from a directory to an entry that is no link goes on from that entry. -/
theorem descend_name {name : Name} {rest : List Path.Part} {entry found : Entry}
    (hhere : v.find? here = some entry) (hdirectory : ¬(!entry.node.isDirectory) = true)
    (henter : ¬(!entry.node.mayEnter) = true) (hlength : ¬name.spelling.length > longestName)
    (hfound : v.find? (here ++ [name]) = some found)
    (hlink : ∀ serial target, found = ⟨serial, .link target⟩ → False) :
    v.descend here (.name name :: rest) = v.descend (here ++ [name]) rest := by
  simp only [descend, hhere, if_neg hdirectory, if_neg henter, hfound, if_neg hlength]

/-- A path that is not refused halts where it halted before, or at the file that is new. -/
theorem Changes.descend (h : Changes v w place serial contents)
    (hgo : ∀ e, v.descend here parts ≠ .refused e) :
    w.descend here parts = (v.descend here parts).settled place := by
  -- A walk goes on from directories only, and these are the same in both volumes.
  fun_induction Volume.descend v here parts with
  | case1 here => rfl
  | case2 | case3 | case4 | case7 | case9 => exact absurd rfl (hgo _)
  | case5 here rest entry hhere hdirectory henter ih
  | case6 here rest entry hhere hdirectory henter ih =>
      simp only [Volume.descend, h.find?_of_directory hhere hdirectory, hdirectory, henter]
      exact ih hgo
  | case8 here rest entry hhere hdirectory henter name spot hlength hspot hlast =>
      have hsame := h.find?_of_directory hhere hdirectory
      by_cases hplace : spot = place
      · obtain ⟨permissions, hafter⟩ := h.after
        rw [← hplace] at hafter ⊢
        rw [descend_name hsame hdirectory henter hlength hafter (by simp),
          List.isEmpty_iff.mp hlast]
        simp only [Volume.descend, Halt.settled, if_true]
        rfl
      · have hvacant : w.find? (here ++ [name]) = none := (h.others _ hplace).trans hspot
        simp only [Volume.descend, hsame, hdirectory, henter, if_neg hlength, hvacant, hlast,
          if_true, Halt.settled, if_neg hplace]
        rfl
  | case10 here rest entry hhere hdirectory henter name spot hlength serial target hspot =>
      have hsame := h.find?_of_directory hhere hdirectory
      have hlink : w.find? (here ++ [name]) = some ⟨serial, .link target⟩ :=
        h.find?_of_not_file hspot (by simp)
      simp only [Volume.descend, hsame, hdirectory, henter, if_neg hlength, hlink, Halt.settled]
      rfl
  | case11 here rest entry hhere hdirectory henter name spot hlength found hlink hspot ih =>
      have hsame := h.find?_of_directory hhere hdirectory
      by_cases hplace : spot = place
      · obtain ⟨permissions, hafter⟩ := h.after
        rw [← hplace] at hafter
        rw [descend_name hsame hdirectory henter hlength hafter (by simp)]
        exact ih hgo
      · rw [descend_name hsame hdirectory henter hlength ((h.others _ hplace).trans hspot) hlink]
        exact ih hgo

/-- A path leads to the new file if it led to its place before. -/
theorem Changes.resolve {permissions : Permissions} {links : Nat} {slash : Bool}
    {destination : Destination} (h : Changes v w place serial contents)
    (hafter : w.find? place = some ⟨serial, .file contents permissions⟩)
    (hresolve : v.resolve .follow links here parts slash = .ok destination)
    (hplace : destination.IsAt place) :
    w.resolve .follow links here parts slash =
      .ok (.present place ⟨serial, .file contents permissions⟩ false) := by
  fun_induction Volume.resolve v .follow links here parts slash with
  | case1 links here parts slash spot hhalt entry hspot =>
      obtain rfl := Except.ok.inj hresolve
      obtain ⟨rfl, rfl⟩ := hplace
      rw [Volume.resolve, h.descend (by simp [hhalt]), hhalt]
      simp only [Halt.settled, hafter]
  | case3 links here parts slash spot hhalt =>
      obtain rfl := Except.ok.inj hresolve
      obtain ⟨rfl, rfl⟩ := hplace
      rw [Volume.resolve, h.descend (by simp [hhalt]), hhalt]
      simp only [Halt.settled, if_true, hafter]
  | case8 here parts slash spot target rest hhalt hgo links ih =>
      rw [Volume.resolve, h.descend (by simp [hhalt]), hhalt]
      simp only [Halt.settled, LastLink.stops, Bool.and_false, Bool.false_eq_true, if_false]
      exact ih hresolve
  | case5 links here parts slash spot target rest hhalt hstops =>
      simp [LastLink.stops] at hstops
  | case2 | case4 | case6 | case7 => simp at hresolve

/-- A path at which a file may be created leads there as any path does. -/
theorem resolve_follow_of_create {links : Nat} {slash : Bool} {destination : Destination}
    (hresolve : v.resolve .create links here parts slash = .ok destination)
    (hplace : destination.IsAt place) :
    v.resolve .follow links here parts slash = .ok destination := by
  fun_induction Volume.resolve v .create links here parts slash with
  | case1 links here parts slash spot hhalt entry hspot =>
      rw [Volume.resolve, hhalt]
      simpa only [hspot] using hresolve
  | case3 links here parts slash spot hhalt =>
      rw [Volume.resolve, hhalt]
      exact hresolve
  | case5 links here parts slash spot target rest hhalt hstops =>
      -- The walk ends at a link only if a slash asks for a directory.
      obtain rfl := Except.ok.inj hresolve
      obtain ⟨-, rfl⟩ := hplace
      simp [LastLink.stops] at hstops
  | case8 here parts slash spot target rest hhalt hgo links ih =>
      rw [Volume.resolve, hhalt]
      simp only [LastLink.stops, Bool.and_false, Bool.false_eq_true, if_false]
      exact ih hresolve
  | case2 | case4 | case6 | case7 => simp at hresolve

/-- Where a path starts is the same from a directory that both volumes have, or none of them. -/
theorem origin_congr (h : ∀ cwd, w.isAttached cwd = v.isAttached cwd) (cwd : WorkingDirectory)
    (path : RawPath) : w.origin cwd path = v.origin cwd path := by
  have hclimb (cwd : WorkingDirectory) (parts : List Path.Part) :
      w.climb cwd parts = v.climb cwd parts := by
    induction parts generalizing cwd with
    | nil => simp only [climb, h]
    | cons part rest ih =>
        simp only [climb, h]
        cases part <;> simp only [ih]
  simp only [origin, hclimb]

/-- An absolute path that leads somewhere is resolved from the root. -/
theorem locate_eq_ok_iff {last : LastLink} {destination : Destination}
    (habsolute : Path.isAbsolute path = true) :
    v.locate cwd path last = .ok destination ↔
      path.toList.contains '\x00' = false ∧ path ≠ "" ∧ (octets path).length < longestPath ∧
        v.resolve last mostLinks [] (Path.parts path) (Path.endsInSlash path) =
          .ok destination := by
  have horigin : v.origin cwd (octets path) = .ok (.attached [] (Path.parts path)) :=
    if_pos habsolute
  rw [locate_iff, horigin]
  constructor
  · rintro ⟨hnul, hempty, hshort, ⟨directory, hremoved, -⟩ | ⟨here, parts, hattached, hresolve⟩⟩
    · simp at hremoved
    · obtain ⟨rfl, rfl⟩ := Origin.attached.inj (Except.ok.inj hattached)
      exact ⟨hnul, hempty, hshort, hresolve⟩
  · rintro ⟨hnul, hempty, hshort, hresolve⟩
    exact ⟨hnul, hempty, hshort, .inr ⟨[], _, rfl, hresolve⟩⟩

/-- A path at which a file may be created leads there as any path does, from every directory. -/
theorem locate_follow_of_create {destination : Destination}
    (hlocate : v.locate cwd path .create = .ok destination) (hplace : destination.IsAt place) :
    v.locate cwd path .follow = .ok destination := by
  obtain ⟨hnul, hempty, hshort, ⟨directory, -, rfl⟩ | ⟨here, parts, horigin, hresolve⟩⟩ :=
    locate_iff.mp hlocate
  · exact hplace.elim
  · have hfollow := resolve_follow_of_create hresolve hplace
    exact locate_iff.mpr ⟨hnul, hempty, hshort, .inr ⟨here, parts, horigin, hfollow⟩⟩

/-- An absolute path leads to the new file if a file could be created at its place. -/
theorem Changes.locate {destination : Destination}
    (h : Changes v w place serial contents) (habsolute : Path.isAbsolute path = true)
    (hlocate : v.locate cwd path .create = .ok destination) (hplace : destination.IsAt place) :
    ∃ permissions, w.locate other path .follow =
      .ok (.present place ⟨serial, .file contents permissions⟩ false) := by
  obtain ⟨permissions, hafter⟩ := h.after
  obtain ⟨hnul, hempty, hshort, hresolve⟩ := (locate_eq_ok_iff habsolute).mp hlocate
  have hfollow := h.resolve hafter (resolve_follow_of_create hresolve hplace) hplace
  exact ⟨permissions, (locate_eq_ok_iff habsolute).mpr ⟨hnul, hempty, hshort, hfollow⟩⟩

end Volume

end LineShell
