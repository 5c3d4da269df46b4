import LineShell.Proofs.SavedFile
import LineShell.Proofs.SessionRuns

/-!
# The history survives a session

The history at the end of a session begins with what the history file held, and goes on with what
was added in the session. The file that is left has all of it, whatever commands did to the file
meanwhile, and whether it could be written makes no difference to the session itself.
-/

namespace LineShell

namespace Session

variable {settings : Settings} {host : Host} {s : Session} {path text : String}

/-- Loading the history file gives its lines; a missing one has none. -/
theorem lines_loadHistory (hempty : s.shell.history = .empty)
    (hstart : s.machine.volume.readText s.shell.directory path = .ok text ∨
      s.machine.volume.readText s.shell.directory path = .error (.refused .noEntry) ∧ text = "") :
    (loadHistory (some path) s).shell.history.lines =
      History.recorded (History.records text) := by
  have hload : ∃ loaded,
      s.shell.history.load s.machine.volume s.shell.directory path = .ok loaded := by
    rcases hstart with hread | ⟨hread, -⟩ <;> simp [History.load, hread]
  have hrecords : History.recordsAt s.machine.volume s.shell.directory path =
      History.records text := by
    rcases hstart with hread | ⟨hread, rfl⟩
    · simp only [History.recordsAt, hread]
    · simp [History.recordsAt, hread, History.records, History.recordsFrom]
  obtain ⟨loaded, hload⟩ := hload
  have hlines := History.lines_load hload
  rw [hrecords, hempty, show History.empty.lines = [] from rfl, List.nil_append] at hlines
  simpa only [loadHistory, History.loadInitial, hload] using hlines

theorem input_loadHistory (file : Option String) (s : Session) :
    (loadHistory file s).input = s.input := by
  simp only [loadHistory]
  split
  · rfl
  · split <;> rfl

/-- Saving the history leaves its lines as they are, whether it succeeds or not. -/
theorem lines_saveHistory (file : Option String) (s : Session) :
    (saveHistory file s).shell.history.lines = s.shell.history.lines := by
  simp only [saveHistory]
  split
  · rfl
  · split
    · rename_i hsave
      exact History.lines_writeFrom hsave
    · rfl

theorem contents?_saveHistory (habsolute : Path.isAbsolute path = true)
    (hdevice : s.machine.volume.device? path = none)
    (hsaved : (s.shell.history.save s.machine s.shell.directory path).2.isOk = true) :
    (saveHistory (some path) s).machine.volume.contents? path =
      some (s.shell.history.lines.flatMap fun line => octets (line ++ "\n")) := by
  rcases hsave : s.shell.history.save s.machine s.shell.directory path with ⟨after, fault | kept⟩
  · simp [hsave, Except.isOk, Except.toBool] at hsaved
  · simp only [saveHistory, hsave]
    exact History.contents?_of_save habsolute hdevice hsave

/-- What is left of a run: the history is saved unless a signal ended the shell. -/
theorem run_eq_of_runs {lines : List String} {last : Session} {ending : SessionEnd}
    (hruns : Runs settings host (loadHistory (historyFile settings s.shell) s) lines last ending) :
    run settings host s = (last, ending) ∧ (∃ signal, ending = .killed signal) ∨
      run settings host s = (saveHistory (historyFile settings s.shell) last, ending) ∧
        ∀ signal, ending ≠ .killed signal := by
  have hturns := turns_eq_of_runs hruns (Nat.lt_succ_self _)
  rw [input_loadHistory] at hturns
  simp only [run, hturns]
  cases ending with
  | killed signal => exact .inl ⟨rfl, signal, rfl⟩
  | finished code => exact .inr ⟨rfl, fun signal => by simp⟩
  | inputFailed fault => exact .inr ⟨rfl, fun signal => by simp⟩

/-- What a session leaves behind that ends in some way: the history is saved, unless a signal ended
the shell. -/
def leaving (file : Option String) (last : Session) : SessionEnd → Session
  | .killed _ => last
  | .finished _ | .inputFailed _ => saveHistory file last

theorem run_eq_leaving {lines : List String} {last : Session} {ending : SessionEnd}
    (hruns : Runs settings host (loadHistory (historyFile settings s.shell) s) lines last ending) :
    run settings host s = (leaving (historyFile settings s.shell) last ending, ending) := by
  rcases run_eq_of_runs hruns with ⟨hrun, signal, rfl⟩ | ⟨hrun, halive⟩
  · exact hrun
  · cases ending with
    | killed signal => exact absurd rfl (halive signal)
    | finished code => exact hrun
    | inputFailed fault => exact hrun

/-- A session with a history file has a run, and for its run: it decides how the session ends and
what the history is at the end, whether it is saved or not. The lines of the file come first, then
the lines that the run adds. If no signal ended the shell and the history is saved, the history file
holds exactly these lines, unless it is a device. -/
theorem history_of_run (hfile : historyFile settings s.shell = some path)
    (habsolute : Path.isAbsolute path = true) (hempty : s.shell.history = .empty)
    (hstart : s.machine.volume.readText s.shell.directory path = .ok text ∨
      s.machine.volume.readText s.shell.directory path = .error (.refused .noEntry) ∧ text = "") :
    (∃ lines last ending, Runs settings host (loadHistory (some path) s) lines last ending) ∧
    ∀ lines last ending, Runs settings host (loadHistory (some path) s) lines last ending →
      (run settings host s).2 = ending ∧
      (run settings host s).1.shell.history.lines =
        History.recorded (History.records text) ++ History.recorded lines ∧
      ((∀ signal, ending ≠ .killed signal) →
        last.machine.volume.device? path = none →
        (last.shell.history.save last.machine last.shell.directory path).2.isOk = true →
        (run settings host s).1.machine.volume.contents? path =
          some ((run settings host s).1.shell.history.lines.flatMap fun line =>
            octets (line ++ "\n"))) := by
  constructor
  · obtain ⟨lines, hruns⟩ := exists_runs settings host (Nat.lt_succ_self
      (loadHistory (some path) s).input.length)
    exact ⟨lines, _, _, hruns⟩
  · intro lines last ending hruns
    have hlines := lines_of_runs hruns
    rw [lines_loadHistory hempty hstart] at hlines
    rw [← hfile] at hruns
    rcases run_eq_of_runs hruns with ⟨hrun, signal, hsignal⟩ | ⟨hrun, -⟩
    · rw [hrun]
      exact ⟨rfl, hlines, fun halive => absurd hsignal (halive signal)⟩
    · rw [hrun, hfile]
      refine ⟨rfl, ?_, ?_⟩
      · rw [lines_saveHistory, hlines]
      · intro _ hdevice hsaved
        rw [lines_saveHistory]
        exact contents?_saveHistory habsolute hdevice hsaved

/-- A host without programs. -/
def bareHost : Host := ⟨fun _ => none, ⟨0, 1, 2⟩, 1⟩

/-- Settings that keep the history in the only entry of `ofEntry`. -/
def keeping : Settings := ⟨"$ ", some "/h", false, false⟩

/-- A session with some input on a machine with nothing but one entry. -/
def ofEntry (node : Node) (input : String) : Session :=
  ⟨⟨.empty, .empty, .root, .empty⟩,
    ⟨Volume.empty.create [.text "h"] node, [.tape [] 0, .stream .empty, .stream .empty], none, [],
      1⟩,
    (octets input).map .octet, "", []⟩

theorem history_of_run_of_file :
    (run keeping bareHost (ofEntry (.file (octets "x\n\ny") .ofNewFile)
      "history -r /h\nexit 3\n")).1.machine.volume.contents? "/h" =
      some (octets "x\ny\nhistory -r /h\nx\ny\nexit 3\n") := by
  obtain ⟨lines, hruns⟩ := exists_runs keeping bareHost (n := 100)
    (s := loadHistory (some "/h")
      (ofEntry (.file (octets "x\n\ny") .ofNewFile) "history -r /h\nexit 3\n")) (by decide +kernel)
  have hread : (ofEntry (.file (octets "x\n\ny") .ofNewFile)
      "history -r /h\nexit 3\n").machine.volume.readText .root "/h" = .ok "x\n\ny" := by
    rfl
  obtain ⟨hending, hlines, hcontents⟩ :=
    (history_of_run rfl (by decide) rfl (.inl hread)).2 _ _ _ hruns
  have hfinished : (run keeping bareHost (ofEntry (.file (octets "x\n\ny") .ofNewFile)
      "history -r /h\nexit 3\n")).2 = .finished 3 := by
    decide +kernel
  rw [hcontents (fun signal => by simp [← hending, hfinished]) (by decide +kernel)
    (by decide +kernel)]
  decide +kernel

/-- A device may be opened and written without keeping anything, so that not every history that is
saved can be found. -/
theorem not_forall_contents?_of_run :
    ¬ ∀ (settings : Settings) (host : Host) (s last : Session) (path text : String)
      (lines : List String) (ending : SessionEnd),
      historyFile settings s.shell = some path → Path.isAbsolute path = true →
      s.shell.history = .empty →
      s.machine.volume.readText s.shell.directory path = .ok text →
      Runs settings host (loadHistory (some path) s) lines last ending →
      (∀ signal, ending ≠ .killed signal) →
      (last.shell.history.save last.machine last.shell.directory path).2.isOk = true →
      (run settings host s).1.machine.volume.contents? path =
        some ((run settings host s).1.shell.history.lines.flatMap fun line =>
          octets (line ++ "\n")) := by
  intro h
  obtain ⟨lines, hruns⟩ := exists_runs keeping bareHost (n := 100)
    (s := loadHistory (some "/h") (ofEntry (.device .null) "echo hi\n")) (by decide +kernel)
  have hending : (turns keeping bareHost 100
      (loadHistory (some "/h") (ofEntry (.device .null) "echo hi\n"))).2 = .finished 0 := by
    decide +kernel
  have hcontents := h keeping bareHost (ofEntry (.device .null) "echo hi\n") _ "/h" "" lines _
    rfl (by decide) rfl rfl hruns (fun signal => by simp [hending]) (by decide +kernel)
  have hnothing : (run keeping bareHost
      (ofEntry (.device .null) "echo hi\n")).1.machine.volume.contents? "/h" = none := by
    decide +kernel
  simp [hnothing] at hcontents

end Session

end LineShell
