import LineShell.Proofs.SessionHistory

/-!
# A history file that cannot be read

A session begins without lines from a history file that it cannot read, be it that the file is no
text or that it may not be read. What becomes of the file is decided at the end: if it may be
written, the lines of this session replace all that it held.

## Implementation notes

A path that leads to a file never asks for a directory, so it leads to the same file whether this
file is to be read or to be written.
-/

namespace LineShell

namespace Volume

variable {v : Volume} {place here : Location} {entry : Entry} {parts : List Path.Part}
  {cwd : WorkingDirectory} {path : String} {serial : Nat} {old : Bytes} {permissions : Permissions}

/-- A slash that asks for a directory is not forgotten on the way. -/
theorem slash_of_resolve {last : LastLink} {links : Nat} {slash : Bool}
    (hresolve : v.resolve last links here parts slash = .ok (.present place entry false)) :
    slash = false := by
  fun_induction Volume.resolve v last links here parts slash with
  | case1 links here parts slash spot hhalt entry' hspot =>
      exact (Destination.present.inj (Except.ok.inj hresolve)).2.2
  | case5 links here parts slash spot target rest hhalt hstops entry' hspot =>
      exact (Destination.present.inj (Except.ok.inj hresolve)).2.2
  | case8 here parts slash spot target rest hhalt hgo links ih =>
      exact (Bool.or_eq_false_iff.mp (ih hresolve)).1
  | case2 | case3 | case4 | case6 | case7 => simp at hresolve

/-- A path that leads to something without asking for a directory leads there for creating, too. -/
theorem resolve_create_of_follow {links : Nat} {slash : Bool}
    (hresolve : v.resolve .follow links here parts slash = .ok (.present place entry false)) :
    v.resolve .create links here parts slash = .ok (.present place entry false) := by
  fun_induction Volume.resolve v .follow links here parts slash with
  | case1 links here parts slash spot hhalt entry' hspot =>
      rw [Volume.resolve, hhalt]
      simpa only [hspot] using hresolve
  | case8 here parts slash spot target rest hhalt hgo links ih =>
      obtain rfl := (Bool.or_eq_false_iff.mp (slash_of_resolve hresolve)).1
      rw [Volume.resolve, hhalt]
      simp only [LastLink.stops, Bool.and_false, Bool.false_eq_true, if_false]
      exact ih hresolve
  | case5 links here parts slash spot target rest hhalt hstops =>
      simp [LastLink.stops] at hstops
  | case2 | case3 | case4 | case6 | case7 => simp at hresolve

theorem locate_create_of_file {found : Option Location} (cwd : WorkingDirectory)
    (habsolute : Path.isAbsolute path = true)
    (hfound : v.lookUp .root path .follow = .ok (found, ⟨serial, .file old permissions⟩)) :
    ∃ place, v.locate cwd path .create =
      .ok (.present place ⟨serial, .file old permissions⟩ false) := by
  simp only [lookUp] at hfound
  split at hfound
  · simp at hfound
  · simp at hfound
  · simp [removedEntry, Node.newDirectory] at hfound
  · rename_i place entry slash hlocate
    split at hfound
    · simp at hfound
    · rename_i hslash
      obtain ⟨rfl, rfl⟩ := Prod.mk.inj (Except.ok.inj hfound)
      obtain rfl : slash = false := by simpa [Node.isDirectory] using hslash
      obtain ⟨hnul, hempty, hshort, hresolve⟩ := (locate_eq_ok_iff habsolute).mp hlocate
      exact ⟨place, (locate_eq_ok_iff habsolute).mpr
        ⟨hnul, hempty, hshort, resolve_create_of_follow hresolve⟩⟩

/-- A file that is found at a path can be opened there for writing if it may be written. -/
theorem openForWriting_of_file {found : Option Location} (cwd : WorkingDirectory)
    (habsolute : Path.isAbsolute path = true)
    (hfound : v.lookUp .root path .follow = .ok (found, ⟨serial, .file old permissions⟩)) :
    v.openForWriting cwd path false = .error (.refused .accessDenied) ∧
        permissions.mayWrite = false ∨
      (∃ w place, v.openForWriting cwd path false = .ok (w, .file place serial)) ∧
        permissions.mayWrite = true := by
  obtain ⟨place, hlocate⟩ := locate_create_of_file cwd habsolute hfound
  cases hwrite : permissions.mayWrite with
  | false => simp [openForWriting, hlocate, hwrite]
  | true => simp [openForWriting, hlocate, hwrite]

end Volume

namespace Machine

/-- A file that is open for writing takes whatever is written. -/
theorem exists_write_of_file {m : Machine} {row serial offset : Nat} {place : Location}
    (hrow : m.channel? row = some (.file place serial .writing offset)) (written : Bytes) :
    ∃ after, m.write row written = .ok after := by
  simp only [write, hrow]
  split
  · exact ⟨m, rfl⟩
  · split
    · exact ⟨_, rfl⟩
    · exact ⟨m, rfl⟩

end Machine

namespace History

variable {h : History} {m : Machine} {cwd : WorkingDirectory} {path : String} {serial : Nat}
  {old : Bytes} {permissions : Permissions} {found : Option Location}

/-- Saving succeeds at a path to a file that may be written; otherwise it changes nothing. -/
theorem save_of_file (h : History) (cwd : WorkingDirectory)
    (habsolute : Path.isAbsolute path = true)
    (hfound : m.volume.lookUp .root path .follow = .ok (found, ⟨serial, .file old permissions⟩)) :
    (∃ fault, h.save m cwd path = (m, .error fault)) ∧ permissions.mayWrite = false ∨
      (∃ after kept, h.save m cwd path = (after, .ok kept)) ∧ permissions.mayWrite = true := by
  rcases Volume.openForWriting_of_file cwd habsolute hfound with
    ⟨hopen, hwrite⟩ | ⟨⟨w, place, hopen⟩, hwrite⟩
  · exact .inl
      ⟨⟨.refused .accessDenied, by simp [save, writeFrom, Machine.openFile, hopen]⟩, hwrite⟩
  · refine .inr ⟨?_, hwrite⟩
    obtain ⟨opened, hopened, hrow⟩ : ∃ opened, m.openFile cwd path false =
        .ok (opened, m.channels.length) ∧
        opened.channel? m.channels.length = some (.file place serial .writing 0) :=
      ⟨_, by simp only [Machine.openFile, hopen, Machine.addChannel]; rfl,
        by simp [Machine.channel?]⟩
    obtain ⟨after, hafter⟩ := Machine.exists_write_of_file hrow
      (octets (fileText (h.lines.drop 0)))
    refine ⟨after.closeFrom m.channels.length, { h with persisted := h.lines.length }, ?_⟩
    simp only [save, writeFrom, hopened, Machine.print, hafter]

/-- A save replaces the contents of a file that may be written, and no others. -/
theorem contents?_save_of_file (habsolute : Path.isAbsolute path = true)
    (hfound : m.volume.lookUp .root path .follow = .ok (found, ⟨serial, .file old permissions⟩)) :
    (h.save m cwd path).1.volume.contents? path =
      some (if permissions.mayWrite then h.lines.flatMap fun line => octets (line ++ "\n")
        else old) := by
  rcases save_of_file h cwd habsolute hfound with
    ⟨⟨fault, hsave⟩, hwrite⟩ | ⟨⟨after, kept, hsave⟩, hwrite⟩
  · simp [hsave, hwrite, Volume.contents?, hfound]
  · rw [hsave, contents?_of_save habsolute (by simp [Volume.device?, hfound]) hsave]
    simp [hwrite]

end History

namespace Session

variable {settings : Settings} {host : Host} {s last : Session} {ending : SessionEnd}
  {path : String} {lines : List String} {fault : FileFault} {found : Option Location}
  {serial : Nat} {old : Bytes} {permissions : Permissions}

theorem volume_saveHistory (s : Session) (path : String) :
    (saveHistory (some path) s).machine.volume =
      (s.shell.history.save s.machine s.shell.directory path).1.volume := by
  simp only [saveHistory]
  split <;> rename_i hsave <;> rw [hsave]

/-- When the history file cannot be loaded, the session has its own lines only. If the file is still
the same when the lines have been run, it holds just these lines after the session if it may be
written, and is left alone if not, or if a signal ends the shell. -/
theorem contents?_of_run_of_load_error (hfile : historyFile settings s.shell = some path)
    (habsolute : Path.isAbsolute path = true)
    (hload : s.shell.history.loadInitial s.machine.volume s.shell.directory path = .error fault)
    (hruns : Runs settings host (loadHistory (some path) s) lines last ending)
    (huntouched : last.machine.volume.lookUp .root path .follow =
      .ok (found, ⟨serial, .file old permissions⟩)) :
    (run settings host s).1.shell.history.lines =
        s.shell.history.lines ++ History.recorded lines ∧
      ((∃ signal, ending = .killed signal) →
        (run settings host s).1.machine.volume.contents? path = some old) ∧
      ((∀ signal, ending ≠ .killed signal) →
        (run settings host s).1.machine.volume.contents? path =
          some (if permissions.mayWrite then
            (run settings host s).1.shell.history.lines.flatMap fun line => octets (line ++ "\n")
            else old)) := by
  have hlines := lines_of_runs hruns
  have hstart : loadHistory (some path) s = s := by simp only [loadHistory, hload]
  rw [hstart] at hlines
  rw [← hfile] at hruns
  rcases run_eq_of_runs hruns with ⟨hrun, signal, hsignal⟩ | ⟨hrun, halive⟩
  · rw [hrun]
    exact ⟨hlines, fun _ => by simp [Volume.contents?, huntouched],
      fun halive => absurd hsignal (halive signal)⟩
  · rw [hrun, hfile, lines_saveHistory, volume_saveHistory]
    refine ⟨hlines, ?_, fun _ => History.contents?_save_of_file habsolute huntouched⟩
    rintro ⟨signal, hsignal⟩
    exact absurd hsignal (halive signal)

/-- An octet that is no text follows the only line of the file, which is lost. -/
theorem contents?_of_run_of_octets :
    (run keeping bareHost (ofEntry (.file [0x78, 0x0A, 0xFF] .ofNewFile)
      "exit\n")).1.machine.volume.contents? "/h" = some (octets "exit\n") := by
  obtain ⟨lines, hruns⟩ := exists_runs keeping bareHost (n := 100)
    (s := loadHistory (some "/h") (ofEntry (.file [0x78, 0x0A, 0xFF] .ofNewFile) "exit\n"))
    (by decide +kernel)
  have hended : (turns keeping bareHost 100
      (loadHistory (some "/h") (ofEntry (.file [0x78, 0x0A, 0xFF] .ofNewFile) "exit\n"))).2 =
      .finished 0 := by
    decide +kernel
  have hload : (ofEntry (.file [0x78, 0x0A, 0xFF] .ofNewFile) "exit\n").shell.history.loadInitial
      (ofEntry (.file [0x78, 0x0A, 0xFF] .ofNewFile) "exit\n").machine.volume .root "/h" =
        .error .notText := by
    rfl
  have huntouched : (turns keeping bareHost 100 (loadHistory (some "/h")
      (ofEntry (.file [0x78, 0x0A, 0xFF] .ofNewFile) "exit\n"))).1.machine.volume.lookUp .root "/h"
        .follow = .ok (some [.text "h"], ⟨1, .file [0x78, 0x0A, 0xFF] .ofNewFile⟩) := by
    rfl
  obtain ⟨-, -, hcontents⟩ :=
    contents?_of_run_of_load_error rfl (by decide) hload hruns huntouched
  rw [hcontents (fun signal => by simp [hended])]
  decide +kernel

/-- A history file that cannot be loaded may lose what it holds, although no command touches it. -/
theorem not_forall_isPrefix_contents?_of_run :
    ¬ ∀ (settings : Settings) (host : Host) (s last : Session) (path : String)
      (fault : FileFault) (found : Option Location) (entry : Entry) (old : Bytes)
      (lines : List String) (ending : SessionEnd),
      historyFile settings s.shell = some path → Path.isAbsolute path = true →
      s.machine.volume.contents? path = some old →
      s.machine.volume.lookUp .root path .follow = .ok (found, entry) →
      s.shell.history.loadInitial s.machine.volume s.shell.directory path = .error fault →
      Runs settings host (loadHistory (some path) s) lines last ending →
      last.machine.volume.lookUp .root path .follow = .ok (found, entry) →
      ∃ now, (run settings host s).1.machine.volume.contents? path = some now ∧ old <+: now := by
  intro h
  obtain ⟨lines, hruns⟩ := exists_runs keeping bareHost (n := 100)
    (s := loadHistory (some "/h") (ofEntry (.file [0x78, 0x0A, 0xFF] .ofNewFile) "exit\n"))
    (by decide +kernel)
  obtain ⟨now, hnow, hprefix⟩ := h keeping bareHost
    (ofEntry (.file [0x78, 0x0A, 0xFF] .ofNewFile) "exit\n") _ "/h" .notText (some [.text "h"])
    ⟨1, .file [0x78, 0x0A, 0xFF] .ofNewFile⟩ [0x78, 0x0A, 0xFF] lines _ rfl (by decide) (by rfl)
    (by rfl) (by rfl) hruns (by rfl)
  have hsaved : (run keeping bareHost (ofEntry (.file [0x78, 0x0A, 0xFF] .ofNewFile)
      "exit\n")).1.machine.volume.contents? "/h" = some (octets "exit\n") := by
    decide +kernel
  obtain rfl := Option.some.inj (hnow.symm.trans hsaved)
  exact absurd hprefix (by decide +kernel)

end Session

end LineShell
