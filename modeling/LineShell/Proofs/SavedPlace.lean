import LineShell.Proofs.SessionHistory

/-!
# Where the history is saved

The history is saved where its path leads when the session ends, and nothing else in the volume
changes by that. An absolute path leads to the same place from every directory. A relative one does
not, and a session may end in another directory than the one it began in; then the file that was
loaded is not the one that is saved.

## Implementation notes

Writing a file detaches no process from the directory it stands in, so a path leads from there to
the file that was written, be it relative or absolute.
-/

namespace LineShell

namespace Volume

variable {v w : Volume} {place : Location} {cwd : WorkingDirectory} {path : String} {serial : Nat}
  {contents : Bytes}

/-- The place of the file that a path leads to from a directory, with the contents of this file. -/
def file? (v : Volume) (cwd : WorkingDirectory) (path : String) : Option (Location × Bytes) :=
  match v.lookUp cwd path .follow with
  | .ok (some place, ⟨_, .file contents _⟩) => some (place, contents)
  | _ => none

/-- Writing a file detaches no process from its directory, and brings none back. -/
theorem Changes.isAttached (h : Changes v w place serial contents) (cwd : WorkingDirectory) :
    w.isAttached cwd = v.isAttached cwd := by
  simp only [Volume.isAttached]
  split
  · rfl
  · rename_i serial' _
    by_cases hplace : cwd.place = place
    · -- There is a file in this place now, and there was no directory before.
      obtain ⟨permissions, hafter⟩ := h.after
      rw [hplace, hafter]
      cases hbefore : v.find? place with
      | none => simp [Node.isDirectory]
      | some entry =>
          obtain ⟨old, permissions', hnode⟩ := h.before entry hbefore
          simp [hnode, Node.isDirectory]
    · rw [h.others _ hplace]

theorem Changes.origin (h : Changes v w place serial contents) (cwd : WorkingDirectory)
    (path : RawPath) : w.origin cwd path = v.origin cwd path :=
  origin_congr h.isAttached cwd path

/-- A path leads to the new file from a directory from which it could be created there. -/
theorem Changes.locate_of_create {destination : Destination}
    (h : Changes v w place serial contents)
    (hlocate : v.locate cwd path .create = .ok destination) (hplace : destination.IsAt place) :
    ∃ permissions, w.locate cwd path .follow =
      .ok (.present place ⟨serial, .file contents permissions⟩ false) := by
  obtain ⟨permissions, hafter⟩ := h.after
  refine ⟨permissions, ?_⟩
  obtain ⟨hnul, hempty, hshort, ⟨directory, -, rfl⟩ | ⟨here, parts, horigin, hresolve⟩⟩ :=
    locate_iff.mp hlocate
  · exact hplace.elim
  · have hfound := h.resolve hafter (resolve_follow_of_create hresolve hplace) hplace
    rw [← h.origin] at horigin
    exact locate_iff.mpr ⟨hnul, hempty, hshort, .inr ⟨here, parts, horigin, hfound⟩⟩

/-- The new file is found from the directory from which it could be created, and at an absolute path
from every directory. -/
theorem Changes.file? {destination : Destination} {other : WorkingDirectory}
    (h : Changes v w place serial contents)
    (hlocate : v.locate cwd path .create = .ok destination) (hplace : destination.IsAt place)
    (hother : Path.isAbsolute path = true ∨ other = cwd) :
    w.file? other path = some (place, contents) := by
  obtain ⟨permissions, hfound⟩ : ∃ permissions, w.locate other path .follow =
      .ok (.present place ⟨serial, .file contents permissions⟩ false) := by
    rcases hother with habsolute | rfl
    · exact h.locate habsolute hlocate hplace
    · exact h.locate_of_create hlocate hplace
  simp [Volume.file?, lookUp, hfound]

end Volume

namespace History

variable {h kept : History} {m after : Machine} {cwd : WorkingDirectory} {path : String}

/-- A successful save changes one place of the volume, unless it is a device that is written. From
the directory in which it is saved the path leads to this place, where a file has all lines. -/
theorem exists_place_of_save (hdevice : m.volume.opensDevice cwd path = false)
    (hsave : h.save m cwd path = (after, .ok kept)) :
    ∃ place,
      (∀ other, Path.isAbsolute path = true ∨ other = cwd →
        after.volume.file? other path =
          some (place, h.lines.flatMap fun line => octets (line ++ "\n"))) ∧
      ∀ spot, spot ≠ place → after.volume.find? spot = m.volume.find? spot := by
  rw [← octets_fileText]
  obtain ⟨place, serial, hchanges, destination, hlocate, hplace⟩ := changes_of_save hdevice hsave
  exact ⟨place, fun other hother => hchanges.file? hlocate hplace hother, hchanges.others⟩

end History

namespace Session

variable {settings : Settings} {host : Host} {s last : Session} {ending : SessionEnd}
  {path : String} {lines : List String}

/-- When a session ends and its history is saved, one place of the volume changes, unless it is a
device that is written. The file there holds all lines of the history, and the path leads to it:
from the directory in which the session ends, and from every directory if the path is absolute. -/
theorem saved_where_path_leads (hfile : historyFile settings s.shell = some path)
    (hruns : Runs settings host (loadHistory (some path) s) lines last ending)
    (halive : ∀ signal, ending ≠ .killed signal)
    (hdevice : last.machine.volume.opensDevice last.shell.directory path = false)
    (hsaved : (last.shell.history.save last.machine last.shell.directory path).2.isOk = true) :
    ∃ place,
      (∀ directory, Path.isAbsolute path = true ∨ directory = last.shell.directory →
        (run settings host s).1.machine.volume.file? directory path =
          some (place, (run settings host s).1.shell.history.lines.flatMap fun line =>
            octets (line ++ "\n"))) ∧
      ∀ spot, spot ≠ place →
        (run settings host s).1.machine.volume.find? spot = last.machine.volume.find? spot := by
  have hrun : (run settings host s).1 = saveHistory (some path) last := by
    rw [← hfile] at hruns
    rw [run_eq_leaving hruns, hfile]
    cases ending with
    | killed signal => exact absurd rfl (halive signal)
    | finished code => rfl
    | inputFailed fault => rfl
  rw [hrun, lines_saveHistory]
  rcases hsave : last.shell.history.save last.machine last.shell.directory path with
    ⟨after, fault | kept⟩
  · simp [hsave, Except.isOk, Except.toBool] at hsaved
  · simp only [saveHistory, hsave]
    exact History.exists_place_of_save hdevice hsave

/-- A session that begins in the root of a volume with one directory, with some input. -/
def atRoot (input : String) : Session :=
  ⟨⟨.empty, .empty, .root, .empty⟩,
    ⟨Volume.empty.create [.text "d"] .newDirectory, [.tape [] 0, .stream .empty, .stream .empty],
      none, [], 1⟩,
    (octets input).map .octet, "", []⟩

/-- Settings that keep the history at a relative path. -/
def keepingHere : Settings := ⟨"$ ", some "h", false, false⟩

/-- The history goes to the directory in which the session ends. -/
theorem saved_where_path_leads_after_cd :
    ∃ place, (run keepingHere bareHost (atRoot "cd /d\nexit\n")).1.machine.volume.file?
      ⟨[(.text "d", 1)]⟩ "h" = some (place, octets "cd /d\nexit\n") := by
  obtain ⟨lines, hruns⟩ := exists_runs keepingHere bareHost (n := 100)
    (s := loadHistory (some "h") (atRoot "cd /d\nexit\n")) (by decide +kernel)
  have hended : (turns keepingHere bareHost 100
      (loadHistory (some "h") (atRoot "cd /d\nexit\n"))).2 = .finished 0 := by
    decide +kernel
  obtain ⟨place, hleads, -⟩ := saved_where_path_leads rfl hruns
    (fun signal => by simp [hended]) (by decide +kernel) (by decide +kernel)
  refine ⟨place, (hleads ⟨[(.text "d", 1)]⟩ (.inr (by decide +kernel))).trans ?_⟩
  exact congrArg (fun text => some (place, text)) (by decide +kernel)

/-- A relative path may lead to another file when the session ends than when it began. Then the
history is not saved in the file from which it was loaded, although this file could be written. -/
theorem not_forall_saved_where_loaded :
    ¬ ∀ (settings : Settings) (host : Host) (s last : Session) (path : String)
      (lines : List String) (ending : SessionEnd),
      historyFile settings s.shell = some path →
      s.shell.history = .empty →
      ((s.machine.volume.readText s.shell.directory path).isOk = true ∨
        s.machine.volume.readText s.shell.directory path = .error (.refused .noEntry)) →
      Runs settings host (loadHistory (some path) s) lines last ending →
      (∀ signal, ending ≠ .killed signal) →
      last.machine.volume.opensDevice s.shell.directory path = false →
      (last.shell.history.save last.machine s.shell.directory path).2.isOk = true →
      ∃ place, (run settings host s).1.machine.volume.file? s.shell.directory path =
        some (place, (run settings host s).1.shell.history.lines.flatMap fun line =>
          octets (line ++ "\n")) := by
  intro h
  obtain ⟨lines, hruns⟩ := exists_runs keepingHere bareHost (n := 100)
    (s := loadHistory (some "h") (atRoot "cd /d\nexit\n")) (by decide +kernel)
  have hended : (turns keepingHere bareHost 100
      (loadHistory (some "h") (atRoot "cd /d\nexit\n"))).2 = .finished 0 := by
    decide +kernel
  obtain ⟨place, hfile⟩ := h keepingHere bareHost (atRoot "cd /d\nexit\n") _ "h" lines _ rfl rfl
    (.inr rfl) hruns (fun signal => by simp [hended]) (by decide +kernel)
    (by decide +kernel)
  have hmissing : (run keepingHere bareHost (atRoot "cd /d\nexit\n")).1.machine.volume.file?
      (atRoot "cd /d\nexit\n").shell.directory "h" = none := by
    decide +kernel
  simp [hmissing] at hfile

end Session

end LineShell
