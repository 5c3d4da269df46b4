import LineShell.Proofs.JoinedPaths
import LineShell.Proofs.SavedPlace
import LineShell.Redirection

/-!
# What redirects leave in reach

Opening the redirects of a command creates and empties files, and takes nothing away. Every path
that led somewhere still leads there, and to a directory if it led to one.
-/

namespace LineShell

namespace Volume

variable {v w : Volume} {place here : Location} {cwd : WorkingDirectory} {path : String}
  {serial : Nat} {contents : Bytes}

/-- A volume that is as before, or in which one file was written. -/
def MayWrite (v w : Volume) : Prop :=
  w = v ∨ ∃ place serial contents, Changes v w place serial contents

theorem mayWrite_of_openForWriting {append : Bool} {opening : Opening}
    (hopen : v.openForWriting cwd path append = .ok (w, opening)) : v.MayWrite w := by
  rcases openForWriting_cases hopen with ⟨place, hlocate, rfl, -⟩ |
    ⟨place, serial, old, permissions, hlocate, rfl, -⟩ | ⟨_, _, _, _, rfl, -⟩
  · exact .inr ⟨place, _, _, changes_create (agrees_of_locate hlocate)⟩
  · cases append with
    | true => exact .inl rfl
    | false => exact .inr ⟨place, _, _, changes_put (agrees_of_locate hlocate)⟩
  · exact .inl rfl

/-- What stands at a place is still there after a file was written, and is no directory unless it
was one. -/
theorem Changes.exists_entry (h : Changes v w place serial contents) {spot : Location}
    {entry : Entry} (hspot : v.find? spot = some entry) :
    ∃ found, w.find? spot = some found ∧ found.node.isDirectory = entry.node.isDirectory := by
  by_cases hplace : spot = place
  · subst hplace
    obtain ⟨permissions, hafter⟩ := h.after
    obtain ⟨old, permissions', hnode⟩ := h.before entry hspot
    exact ⟨_, hafter, by simp [hnode, Node.isDirectory]⟩
  · exact ⟨entry, (h.others spot hplace).trans hspot, rfl⟩

theorem Changes.exists_present (h : Changes v w place serial contents) {links : Nat}
    {parts : List Path.Part} {slash last : Bool} {spot : Location} {entry : Entry}
    (hresolve : v.resolve .follow links here parts slash = .ok (.present spot entry last)) :
    ∃ found, w.resolve .follow links here parts slash = .ok (.present spot found last) ∧
      found.node.isDirectory = entry.node.isDirectory := by
  fun_induction Volume.resolve v .follow links here parts slash with
  | case1 links here parts slash halt hhalt found hfound =>
      obtain ⟨rfl, rfl, rfl⟩ := Destination.present.inj (Except.ok.inj hresolve)
      obtain ⟨after, hafter, hsame⟩ := h.exists_entry hfound
      refine ⟨after, ?_, hsame⟩
      rw [Volume.resolve, h.descend (by simp [hhalt]), hhalt]
      simp only [Halt.settled, hafter]
  | case5 links here parts slash spot target rest hhalt hstops =>
      simp [LastLink.stops] at hstops
  | case8 here parts slash spot target rest hhalt hgo links ih =>
      rw [Volume.resolve, h.descend (by simp [hhalt]), hhalt]
      simp only [Halt.settled, LastLink.stops, Bool.and_false, Bool.false_eq_true, if_false]
      exact ih hresolve
  | case2 | case3 | case4 | case6 | case7 => simp at hresolve

/-- A path leads to something exactly if its walk ends in a removed directory or at an entry, which
is a directory if a slash asks for one. -/
theorem reaches_iff :
    v.reaches cwd path = true ↔
      (∃ directory, v.locate cwd path .follow = .ok (.removed directory)) ∨
        ∃ place entry slash, v.locate cwd path .follow = .ok (.present place entry slash) ∧
          (slash && !entry.node.isDirectory) = false := by
  unfold Volume.reaches lookUp
  cases v.locate cwd path .follow with
  | error fault => simp [Except.isOk, Except.toBool]
  | ok destination =>
      cases destination with
      | vacant place slash => simp [Except.isOk, Except.toBool]
      | removed directory => simp [Except.isOk, Except.toBool]
      | present place entry slash =>
          cases hask : slash && !entry.node.isDirectory with
          | true => simp_all [Except.isOk, Except.toBool]
          | false =>
              simp only [hask, Bool.false_eq_true, if_false]
              exact iff_of_true rfl (.inr ⟨place, entry, slash, rfl, hask⟩)

/-- Every path that leads somewhere still does when a file was written. -/
theorem Changes.reaches (h : Changes v w place serial contents)
    (hreaches : v.reaches cwd path = true) : w.reaches cwd path = true := by
  rw [reaches_iff] at hreaches ⊢
  rcases hreaches with ⟨directory, hlocate⟩ | ⟨spot, entry, slash, hlocate, hask⟩
  · obtain ⟨hnul, hempty, hlength, hwalk⟩ := locate_iff.mp hlocate
    rw [← h.origin] at hwalk
    rcases hwalk with hremoved | ⟨here, parts, -, hresolve⟩
    · exact .inl ⟨directory, locate_iff.mpr ⟨hnul, hempty, hlength, .inl hremoved⟩⟩
    · exact absurd hresolve (resolve_ne_removed directory)
  · obtain ⟨hnul, hempty, hlength, hwalk⟩ := locate_iff.mp hlocate
    rw [← h.origin] at hwalk
    rcases hwalk with ⟨_, _, hother⟩ | ⟨here, parts, horigin, hresolve⟩
    · simp at hother
    · obtain ⟨found, hfound, hdirectory⟩ := h.exists_present hresolve
      refine .inr ⟨spot, found, slash, ?_, by rw [hdirectory, hask]⟩
      exact locate_iff.mpr ⟨hnul, hempty, hlength, .inr ⟨here, parts, horigin, hfound⟩⟩

theorem MayWrite.reaches (h : v.MayWrite w) (hreaches : v.reaches cwd path = true) :
    w.reaches cwd path = true := by
  rcases h with rfl | ⟨place, serial, contents, hchanges⟩
  · exact hreaches
  · exact hchanges.reaches hreaches

end Volume

namespace Redirection

variable {m opened : Machine} {cwd : WorkingDirectory} {path : String} {redirects : List Redirect}
  {result : Except ShellError Redirection}

theorem mayWrite_of_openFile {append : Bool} {row : Nat}
    (hopen : m.openFile cwd path append = .ok (opened, row)) :
    m.volume.MayWrite opened.volume := by
  unfold Machine.openFile at hopen
  split at hopen
  case h_1 => simp at hopen
  case h_2 volume place serial hwrite =>
    obtain ⟨rfl, -⟩ := Prod.mk.inj (Except.ok.inj hopen)
    exact Volume.mayWrite_of_openForWriting hwrite
  case h_3 volume device hwrite =>
    obtain ⟨rfl, -⟩ := Prod.mk.inj (Except.ok.inj hopen)
    exact Volume.mayWrite_of_openForWriting hwrite

theorem reaches_of_openFrom {r : Redirection}
    (hopen : r.openFrom m cwd redirects = (opened, result))
    (hreaches : m.volume.reaches cwd path = true) : opened.volume.reaches cwd path = true := by
  induction redirects generalizing r m with
  | nil =>
      obtain ⟨rfl, -⟩ := Prod.mk.inj hopen
      exact hreaches
  | cons redirect rest ih =>
      simp only [openFrom] at hopen
      split at hopen
      case h_1 =>
        obtain ⟨rfl, -⟩ := Prod.mk.inj hopen
        exact hreaches
      case h_2 written row hwritten =>
        apply ih hopen
        have hclosed : (r.closeSuperseded written redirect.target row).volume = written.volume := by
          unfold closeSuperseded
          split <;> rfl
        rw [hclosed]
        exact (mayWrite_of_openFile hwritten).reaches hreaches

/-- Every path that leads somewhere still does when redirects were opened. -/
theorem reaches_of_openAll (hopen : openAll m cwd redirects = (opened, result))
    (hreaches : m.volume.reaches cwd path = true) : opened.volume.reaches cwd path = true :=
  reaches_of_openFrom hopen hreaches

end Redirection

end LineShell
