import LineShell.Proofs.AlikeRuns
import LineShell.Proofs.BuiltinOutput

/-!
# Prompting once more

An empty line does nothing when it is run. If a session finishes one in place of ending, it reads
one more line, finds the input at its end and ends then. All that this adds is a prompt and the end
of the line that nobody typed. If they are shown on a stream, it makes no difference whether the
history is saved before or after.
-/

namespace LineShell

namespace Machine

variable {m : Machine} {row : Nat} {channel : Channel}

/-- Putting the channel of a row there again changes nothing. -/
theorem setChannel_of_channel? (hrow : m.channel? row = some channel) :
    m.setChannel row channel = m := by
  obtain ⟨hlt, rfl⟩ := List.getElem?_eq_some_iff.mp hrow
  simp only [setChannel, List.set_getElem_self]

/-- What becomes of a stream that is printed to depends on nothing else. -/
theorem exists_printOrSkip_stream (stream : Stream) (row : Nat) (text : String) :
    ∃ next, ∀ {m : Machine}, m.channel? row = some (.stream stream) →
      m.printOrSkip row text = m.setChannel row (.stream next) := by
  by_cases hempty : (octets text).isEmpty = true
  · refine ⟨stream, fun hrow => ?_⟩
    simp [printOrSkip, print, write, hrow, hempty, setChannel_of_channel? hrow]
  · by_cases hbroken : stream.isBroken = true
    · refine ⟨stream, fun hrow => ?_⟩
      simp [printOrSkip, print, write, hrow, hempty, hbroken, setChannel_of_channel? hrow]
    · refine ⟨stream.write (octets text), fun hrow => ?_⟩
      simp [printOrSkip, print, write, hrow, hempty, hbroken]

/-- Opening a file changes channels and files and nothing else. -/
theorem exists_eq_of_openFile {cwd : WorkingDirectory} {path : String} {append : Bool}
    {opened : Machine} {new : Nat} (hopen : m.openFile cwd path append = .ok (opened, new)) :
    ∃ channels volume, opened = { m with channels := channels, volume := volume } := by
  simp only [openFile] at hopen
  split at hopen
  · simp at hopen
  · exact ⟨_, _, (Prod.mk.inj (Except.ok.inj hopen)).1.symm⟩
  · exact ⟨_, _, (Prod.mk.inj (Except.ok.inj hopen)).1.symm⟩

end Machine

namespace History

variable {m : Machine} {row : Nat}

/-- What is recalled makes no difference to what is saved. -/
theorem save_resetCursor (h : History) (m : Machine) (cwd : WorkingDirectory) (path : String) :
    h.resetCursor.save m cwd path =
      ((h.save m cwd path).1, (h.save m cwd path).2.map resetCursor) := by
  simp only [save, writeFrom, resetCursor]
  cases m.openFile cwd path false with
  | error fault => rfl
  | ok opened =>
      dsimp only
      cases opened.1.print opened.2 (fileText (h.lines.drop 0)) <;> rfl

/-- Whether the history is saved before or after something is printed to a stream makes no
difference. -/
theorem save_printOrSkip {stream : Stream} (hrow : m.channel? row = some (.stream stream))
    (text : String) (h : History) (cwd : WorkingDirectory) (path : String) :
    h.save (m.printOrSkip row text) cwd path =
      ((h.save m cwd path).1.printOrSkip row text, (h.save m cwd path).2) := by
  have hlt : row < m.channels.length := (List.getElem?_eq_some_iff.mp hrow).1
  have hkept : (h.save m cwd path).1.channel? row = some (.stream stream) := by
    rw [← hrow]
    exact (Builtin.keepsRow_writeFrom ..).channel?_eq hlt
  obtain ⟨next, hprint⟩ := Machine.exists_printOrSkip_stream stream row text
  rw [hprint hrow, hprint hkept, save_setChannel hlt]

/-- Saving the history changes channels and files and nothing else. -/
theorem exists_eq_of_save (h : History) (m : Machine) (cwd : WorkingDirectory) (path : String) :
    ∃ channels volume,
      (h.save m cwd path).1 = { m with channels := channels, volume := volume } := by
  simp only [save, writeFrom]
  split
  · exact ⟨_, _, rfl⟩
  · rename_i opened new hopen
    obtain ⟨_, _, rfl⟩ := Machine.exists_eq_of_openFile hopen
    split
    · exact ⟨_, _, rfl⟩
    · rename_i hwrite
      obtain ⟨_, _, rfl⟩ := Machine.exists_eq_of_write hwrite
      exact ⟨_, _, rfl⟩

end History

namespace Session

variable {settings : Settings} {host : Host} {s t : Session}

/-! ## Running an empty line -/

/-- Running an empty line resets the recalled line, and does nothing else. -/
theorem runLine_empty (h : Fed settings host s) (halive : fatal? settings host s.machine = none) :
    s.runLine settings host "" =
      ({ s with shell := s.recording "", machine := s.lend settings host }, none) := by
  have hexecuted : s.executed settings host "" =
      (s.lend settings host, s.recording "", .ok (.proceed 0)) := by
    have hparse : parseLine "" = [] := by decide
    simp only [executed, Execution.runLine, hparse, Execution.execute, Execution.pipeline,
      Machine.closeFrom, List.take_length]
  have hsurvives : fatal? settings host (s.lend settings host) = none := by
    obtain ⟨contents, -, hlend⟩ := h.lend_eq
    rwa [hlend, fatal?_withTape]
  simp only [runLine_eq_settle, hexecuted, settle, hsurvives, afterRun,
    (h.reclaim_eq fun _ => rfl).1]

/-- One more line is read although nothing is left to be read. -/
def promptAgain (settings : Settings) (host : Host) (s : Session) : Session where
  shell := { s.shell with history := s.shell.history.resetCursor }
  machine :=
    if settings.standardStreams then
      s.machine.printOrSkip host.streams.output (settings.prompt ++ "\n")
    else s.machine
  input := []
  shown := s.shown ++ (settings.prompt ++ "\n")
  modes := s.modes ++ (readingMode settings s.machine).toList

theorem reading_of_nil (hinput : s.input = []) :
    s.reading settings =
      ⟨.endOfInput, settings.prompt ++ "\n", s.shell.history.resetCursor, []⟩ := by
  rw [reading, hinput]
  rfl

theorem turn_of_nil (hinput : s.input = []) :
    s.turn settings host = (s.promptAgain settings host, some (.finished 0)) := by
  simp only [turn_eq, readLine_eq, reading_of_nil hinput]
  rfl

/-- Where nothing is left to be read, no line is. -/
theorem OnLines.of_nil {P : Session → String → Prop} (hinput : s.input = []) :
    OnLines settings host P s := by
  refine .of_turn (fun line hread => ?_) fun next hturn => ?_
  · simp [reading_of_nil hinput] at hread
  · simp [turn_of_nil hinput] at hturn

theorem promptAgain_recording (s : Session) :
    promptAgain settings host { s with shell := s.recording "" } =
      s.promptAgain settings host := by
  simp [promptAgain, recording, History.add, History.addAll, History.resetCursor, isBlank]

theorem promptAgain_eq_showing (s : Session) :
    s.promptAgain settings host = s.showing settings host s.shell.history.resetCursor
      (settings.prompt ++ "\n") [] := rfl

theorem InStep.promptAgain (h : InStep settings host s t) :
    InStep settings host (s.promptAgain settings host) (t.promptAgain settings host) := by
  rw [promptAgain_eq_showing, promptAgain_eq_showing, h.shell]
  exact h.showing List.nil_suffix List.nil_suffix _ _

/-- After an empty line that is finished in place of the end of the input one more line is read. -/
theorem InStep.exists_runs_of_empty (h : InStep settings host s t)
    (halive : fatal? settings host s.machine = none)
    (hrest : (s.reading settings).rest = [])
    (hother : t.reading settings = { s.reading settings with outcome := .line "" }) :
    ∃ others final, Runs settings host t others final (.finished 0) ∧
      InStep settings host ((s.readLine settings host).1.promptAgain settings host) final := by
  have hready := h.readLine (by rw [hother]) (by rw [hother])
  generalize hs : (s.readLine settings host).1 = ready at hready ⊢
  generalize ht : (t.readLine settings host).1 = other at hready
  have hsurvives : fatal? settings host other.machine = none := by
    obtain ⟨_, _, hmachine⟩ := hready.machine
    rwa [hmachine, fatal?_withTape, ← hs, fatal?_readLine]
  have hnothing : other.input = [] := by
    rw [← ht, readLine_eq, hother]
    exact hrest
  have hturn : t.turn settings host =
      ({ other with shell := other.recording "", machine := other.lend settings host }, none) := by
    rw [turn_eq, hother, ht]
    exact runLine_empty hready.other hsurvives
  have hstep : InStep settings host { ready with shell := ready.recording "" }
      { other with shell := other.recording "", machine := other.lend settings host } := by
    obtain ⟨_, _, hmachine⟩ := hready.machine
    obtain ⟨contents, -, hlend⟩ := hready.other.lend_eq
    refine ⟨⟨?_, hready.shown, hready.modes, contents,
      contents.length - (delivered other.input).length, ?_⟩, hready.fed,
      (hready.other.reclaim_eq fun _ => rfl).2⟩
    · simp only [recording, hready.shell]
    · rw [hlend, hmachine, withTape_withTape]
  have hagain := hstep.promptAgain
  rw [promptAgain_recording] at hagain
  exact ⟨_, _, .goesOn hturn (.ends (turn_of_nil hnothing)), hagain⟩

/-- Prompting before the history is saved is the same as prompting after it, unless what is shown
goes to a file. -/
theorem saveHistory_promptAgain (file : Option String)
    (hstream : settings.standardStreams = true → ∃ stream,
      s.machine.channel? host.streams.output = some (.stream stream)) :
    saveHistory file (s.promptAgain settings host) =
      (saveHistory file s).promptAgain settings host := by
  cases file with
  | none => rfl
  | some path =>
      have hmode : readingMode settings
          (s.shell.history.save s.machine s.shell.directory path).1 =
            readingMode settings s.machine := by
        obtain ⟨_, _, hsaved⟩ :=
          History.exists_eq_of_save s.shell.history s.machine s.shell.directory path
        rw [hsaved]
        rfl
      rcases hsave : s.shell.history.save s.machine s.shell.directory path with ⟨after, result⟩
      rw [hsave] at hmode
      simp only [saveHistory, promptAgain, hsave]
      cases hshared : settings.standardStreams with
      | false =>
          simp only [Bool.false_eq_true, if_false, History.save_resetCursor, hsave]
          cases result <;> simp [Except.map, hmode, History.resetCursor]
      | true =>
          obtain ⟨stream, hrow⟩ := hstream hshared
          simp only [if_true, History.save_resetCursor, History.save_printOrSkip hrow, hsave]
          cases result <;> simp [Except.map, hmode, History.resetCursor]

end Session

end LineShell
