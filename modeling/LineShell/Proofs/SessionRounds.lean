import LineShell.Proofs.LineEnds
import LineShell.Proofs.SessionHistory

/-!
# A session line by line

A session goes round: a line is read, recorded and run. It goes on after a line that was abandoned,
after a command that did not ask to exit and after an error of the shell, which is reported; it ends
with the first round that asks for it. Every round but the last one takes an octet off the input, so
a session of finitely many reads ends, after as many rounds as there are octets and one more at the
latest.

## Implementation notes

`Session.Takes` has one rule for each kind of round, with all that a round of this kind does.
`Session.Rounds` strings rounds together up to the first one that ends the session. Interrupted
reads are no progress, so rounds are counted against octets (`Session.delivered`) and not against
reads.

A command may send the shell a signal that ends it, and then its line is never run to the end.
-/

namespace LineShell

/-- What came of one round of a session. -/
inductive Round where
  /-- The line was abandoned. -/
  | abandoned
  /-- The line was recorded and run, with this result. -/
  | ran (line : String) (result : Except ShellError Flow)
  /-- A signal ended the shell while the line was run. -/
  | killed (line : String) (signal : Nat)
  /-- There was no line any more. -/
  | ended
  /-- The reader failed. -/
  | failed (fault : FileFault)

/-- How a session ends with a round; after other rounds it goes on. -/
def Round.ending? : Round → Option SessionEnd
  | .abandoned => none
  | .ran _ (.ok (.exit code)) => some (.finished code)
  | .ran _ (.ok (.proceed _)) => none
  | .ran _ (.error _) => none
  | .killed _ signal => some (.killed signal)
  | .ended => some (.finished 0)
  | .failed fault => some (.inputFailed fault)

namespace Session

/-- The editor that reads the next line of a session. -/
def editor (settings : Settings) (s : Session) : Editor :=
  ⟨settings.prompt,
    Completer.complete ⟨Builtin.names, s.shell.environment.searchPath⟩ s.machine.volume
      s.shell.directory⟩

/-- A session before and after a line was read. The reads that were taken close the line, no line is
recorded, and nothing happens to the machine but what is shown on it. -/
structure ReadsLine (settings : Settings) (host : Host) (s : Session) (outcome : ReadOutcome)
    (ready : Session) : Prop where
  result : s.readLine settings host = (ready, outcome)
  closes : ∃ before left state shown, s.input = before ++ left ∧
    (∀ fault, .failed fault ∉ before) ∧
    (s.editor settings).pressAll (.start s.shell.history) (delivered before) = .goOn state shown ∧
    Editor.Closes state.buffer left outcome ready.input
  lines : ready.shell.history.lines = s.shell.history.lines
  machine : ∃ shown, ready.machine =
    if settings.standardStreams then s.machine.printOrSkip host.streams.output shown else s.machine

/-- The shell with one more line recorded, unless it is blank. -/
def recording (s : Session) (line : String) : Shell :=
  { s.shell with history := s.shell.history.add line }

/-- A session after a line was run, with the shell and the machine that it left. -/
def afterRun (settings : Settings) (host : Host) (s : Session) (shell : Shell) (m : Machine) :
    Session :=
  { s with shell := shell, machine := m, input := reclaim settings host s.input m }

/-- One round of a session. -/
inductive Takes (settings : Settings) (host : Host) : Session → Round → Session → Prop
  | abandoned {s ready : Session} (read : ReadsLine settings host s .interrupted ready) :
      Takes settings host s .abandoned ready
  | ran {s ready : Session} {line : String} {shell : Shell} {m : Machine} {flow : Flow}
      (read : ReadsLine settings host s (.line line) ready)
      (run : Execution.runLine host (ready.recording line) (ready.lend settings host) line =
        (m, shell, .ok flow))
      (alive : fatal? settings host m = none) :
      Takes settings host s (.ran line (.ok flow)) (ready.afterRun settings host shell m)
  | reported {s ready : Session} {line : String} {shell : Shell} {m : Machine} {e : ShellError}
      (read : ReadsLine settings host s (.line line) ready)
      (run : Execution.runLine host (ready.recording line) (ready.lend settings host) line =
        (m, shell, .error e))
      (alive : fatal? settings host m = none) :
      Takes settings host s (.ran line (.error e))
        { ready.afterRun settings host shell m with
          machine := m.printOrSkip host.streams.error ("minish: " ++ e.message ++ "\n") }
  | killed {s ready : Session} {line : String} {shell : Shell} {m : Machine}
      {result : Except ShellError Flow} {signal : Nat}
      (read : ReadsLine settings host s (.line line) ready)
      (run : Execution.runLine host (ready.recording line) (ready.lend settings host) line =
        (m, shell, result))
      (dead : fatal? settings host m = some signal) :
      Takes settings host s (.killed line signal) (ready.afterRun settings host shell m)
  | ended {s ready : Session} (read : ReadsLine settings host s .endOfInput ready) :
      Takes settings host s .ended ready
  | failed {s ready : Session} {fault : FileFault}
      (read : ReadsLine settings host s (.failed fault) ready) :
      Takes settings host s (.failed fault) ready

/-- Rounds up to the first one that ends the session. -/
inductive Rounds (settings : Settings) (host : Host) :
    Session → List Round → Session → SessionEnd → Prop
  | last {s last : Session} {round : Round} {ending : SessionEnd}
      (takes : Takes settings host s round last) (ends : round.ending? = some ending) :
      Rounds settings host s [round] last ending
  | more {s next last : Session} {round : Round} {rounds : List Round} {ending : SessionEnd}
      (takes : Takes settings host s round next) (goesOn : round.ending? = none)
      (rest : Rounds settings host next rounds last ending) :
      Rounds settings host s (round :: rounds) last ending

variable {settings : Settings} {host : Host} {s ready next last : Session} {ending : SessionEnd}

theorem readsLine (settings : Settings) (host : Host) (s : Session) :
    ReadsLine settings host s (s.readLine settings host).2 (s.readLine settings host).1 := by
  obtain ⟨before, left, state, more, hinput, hsound, hopen, hcloses⟩ :=
    (s.editor settings).exists_closes (.start s.shell.history) settings.prompt s.input
  refine ⟨rfl, ⟨before, left, state, more, hinput, hsound, hopen, hcloses⟩,
    lines_readLine settings host s, ?_⟩
  exact ⟨((s.editor settings).readLine s.shell.history s.input).shown, rfl⟩

/-- Whatever is read, some round is taken, and the turn ends the session as the round does. -/
theorem exists_takes (settings : Settings) (host : Host) (s : Session) :
    ∃ round, Takes settings host s round (s.turn settings host).1 ∧
      round.ending? = (s.turn settings host).2 := by
  have hread := readsLine settings host s
  rcases hresult : s.readLine settings host with ⟨ready, outcome⟩
  rw [hresult] at hread
  cases outcome with
  | interrupted =>
      refine ⟨.abandoned, ?_, ?_⟩ <;> simp only [turn, hresult]
      · exact .abandoned hread
      · rfl
  | endOfInput =>
      refine ⟨.ended, ?_, ?_⟩ <;> simp only [turn, hresult]
      · exact .ended hread
      · rfl
  | failed fault =>
      refine ⟨.failed fault, ?_, ?_⟩ <;> simp only [turn, hresult]
      · exact .failed hread
      · rfl
  | line line =>
      rcases hrun : Execution.runLine host (ready.recording line) (ready.lend settings host) line
        with ⟨m, shell, result⟩
      simp only [turn, hresult, runLine]
      rw [show ({ ready.shell with history := ready.shell.history.add line } : Shell) =
        ready.recording line from rfl, hrun]
      cases hfatal : fatal? settings host m with
      | some signal => exact ⟨.killed line signal, .killed hread hrun hfatal, rfl⟩
      | none =>
          cases result with
          | error e => exact ⟨.ran line (.error e), .reported hread hrun hfatal, rfl⟩
          | ok flow =>
              cases flow with
              | exit code => exact ⟨.ran line (.ok (.exit code)), .ran hread hrun hfatal, rfl⟩
              | proceed code =>
                  exact ⟨.ran line (.ok (.proceed code)), .ran hread hrun hfatal, rfl⟩

/-- A round is what a turn does. -/
theorem Takes.turn_eq {round : Round} (h : Takes settings host s round next) :
    s.turn settings host = (next, round.ending?) := by
  cases h with
  | abandoned read | ended read | failed read =>
      simp only [turn, read.result]
      rfl
  | ran read run alive =>
      rename_i flow
      simp only [recording] at run
      simp only [turn, read.result, runLine, run, alive]
      cases flow <;> rfl
  | reported read run alive =>
      simp only [recording] at run
      simp only [turn, read.result, runLine, run, alive]
      rfl
  | killed read run dead =>
      simp only [recording] at run
      simp only [turn, read.result, runLine, run, dead]
      rfl

theorem Rounds.exists_runs {rounds : List Round} (h : Rounds settings host s rounds last ending) :
    ∃ lines, Runs settings host s lines last ending := by
  induction h with
  | last takes ends =>
      have hturn := takes.turn_eq
      rw [ends] at hturn
      exact ⟨_, .ends hturn⟩
  | more takes goesOn rest ih =>
      have hturn := takes.turn_eq
      rw [goesOn] at hturn
      obtain ⟨lines, hruns⟩ := ih
      exact ⟨_, .goesOn hturn hruns⟩

theorem Runs.exists_rounds {lines : List String} (h : Runs settings host s lines last ending) :
    ∃ rounds, Rounds settings host s rounds last ending := by
  induction h with
  | @ends s last ending turn_eq =>
      obtain ⟨round, htakes, hending⟩ := exists_takes settings host s
      rw [turn_eq] at htakes hending
      exact ⟨_, .last htakes hending⟩
  | @goesOn s next last lines ending turn_eq rest ih =>
      obtain ⟨round, htakes, hending⟩ := exists_takes settings host s
      rw [turn_eq] at htakes hending
      obtain ⟨rounds, hrounds⟩ := ih
      exact ⟨_, .more htakes hending hrounds⟩

/-- Running a line brings no octets to the input. -/
theorem length_delivered_reclaim_le (input : List Read) (m : Machine) :
    (delivered (reclaim settings host input m)).length ≤ (delivered input).length :=
  ((reclaim_suffix settings host input m).sublist.filterMap _).length_le

theorem ReadsLine.length_delivered_lt {outcome : ReadOutcome}
    (h : ReadsLine settings host s outcome ready) (hgo : Editor.MayGoOn outcome) :
    (delivered ready.input).length < (delivered s.input).length := by
  obtain ⟨before, left, state, shown, hinput, -, hopen, hcloses⟩ := h.closes
  rw [hinput]
  exact Editor.length_delivered_lt rfl hgo hopen hcloses

/-- A round after which the session goes on takes an octet off the input. -/
theorem Takes.length_delivered_lt {round : Round} (h : Takes settings host s round next)
    (hgo : round.ending? = none) : (delivered next.input).length < (delivered s.input).length := by
  cases h with
  | abandoned read => exact read.length_delivered_lt trivial
  | ran read run alive | reported read run alive =>
      exact Nat.lt_of_le_of_lt (length_delivered_reclaim_le _ _) (read.length_delivered_lt trivial)
  | killed | ended | failed => simp [Round.ending?] at hgo

/-- There are at most as many rounds as octets, and one more. -/
theorem Rounds.length_le {rounds : List Round} (h : Rounds settings host s rounds last ending) :
    rounds.length ≤ (delivered s.input).length + 1 := by
  induction h with
  | last takes ends => exact Nat.succ_le_succ (Nat.zero_le _)
  | more takes goesOn rest ih =>
      have hless := takes.length_delivered_lt goesOn
      rw [List.length_cons]
      omega

/-- Every session takes rounds up to one that ends it, at most as many as there are octets in the
input and one more, and these rounds decide how it ends and what it leaves behind: the history is
saved at the end, unless a signal ended the shell. -/
theorem rounds_of_run (settings : Settings) (host : Host) (s : Session) :
    (∃ rounds last ending,
      Rounds settings host (loadHistory (historyFile settings s.shell) s) rounds last ending) ∧
    ∀ rounds last ending,
      Rounds settings host (loadHistory (historyFile settings s.shell) s) rounds last ending →
      rounds.length ≤ (delivered s.input).length + 1 ∧
      (run settings host s = (last, ending) ∧ (∃ signal, ending = .killed signal) ∨
        run settings host s = (saveHistory (historyFile settings s.shell) last, ending) ∧
          ∀ signal, ending ≠ .killed signal) := by
  constructor
  · obtain ⟨lines, hruns⟩ := exists_runs settings host (Nat.lt_succ_self
      (loadHistory (historyFile settings s.shell) s).input.length)
    obtain ⟨rounds, hrounds⟩ := hruns.exists_rounds
    exact ⟨rounds, _, _, hrounds⟩
  · intro rounds last ending hrounds
    obtain ⟨lines, hruns⟩ := hrounds.exists_runs
    have hlength := hrounds.length_le
    rw [input_loadHistory] at hlength
    exact ⟨hlength, run_eq_of_runs hruns⟩

/-- A line is abandoned and another one exits; the octet behind it is never read. -/
theorem rounds_of_run_of_exit_line :
    ∃ rounds last,
      Rounds ⟨"$ ", none, false, false⟩ ⟨fun _ => none, ⟨0, 1, 2⟩, 1⟩
        ⟨⟨.empty, .empty, ⟨[]⟩, ⟨[], 0, 0⟩⟩, ⟨.empty, [], none, [], 1⟩,
          [.octet 0x61, .octet 0x03, .interrupted, .octet 0x65, .octet 0x78, .octet 0x69,
            .octet 0x74, .octet 0x0D, .octet 0x62], "", []⟩ rounds last (.finished 0) ∧
      rounds.length ≤ 9 ∧ last.input = [.octet 0x62] := by
  have hrun : (run ⟨"$ ", none, false, false⟩ ⟨fun _ => none, ⟨0, 1, 2⟩, 1⟩
      ⟨⟨.empty, .empty, ⟨[]⟩, ⟨[], 0, 0⟩⟩, ⟨.empty, [], none, [], 1⟩,
        [.octet 0x61, .octet 0x03, .interrupted, .octet 0x65, .octet 0x78, .octet 0x69,
          .octet 0x74, .octet 0x0D, .octet 0x62], "", []⟩).map (·.input) id =
      ([.octet 0x62], .finished 0) := by
    decide +kernel
  obtain ⟨⟨rounds, last, ending, hrounds⟩, hends⟩ :=
    rounds_of_run ⟨"$ ", none, false, false⟩ ⟨fun _ => none, ⟨0, 1, 2⟩, 1⟩
      ⟨⟨.empty, .empty, ⟨[]⟩, ⟨[], 0, 0⟩⟩, ⟨.empty, [], none, [], 1⟩,
        [.octet 0x61, .octet 0x03, .interrupted, .octet 0x65, .octet 0x78, .octet 0x69,
          .octet 0x74, .octet 0x0D, .octet 0x62], "", []⟩
  obtain ⟨hlength, ⟨hlast, -⟩ | ⟨hlast, -⟩⟩ := hends rounds last ending hrounds
  · rw [hlast] at hrun
    obtain ⟨hinput, rfl⟩ := Prod.mk.inj hrun
    exact ⟨rounds, last, hrounds, hlength, hinput⟩
  · rw [hlast] at hrun
    obtain ⟨hinput, rfl⟩ := Prod.mk.inj hrun
    exact ⟨rounds, last, hrounds, hlength, hinput⟩

end Session

end LineShell
