import LineShell.Proofs.KeptTerminal
import LineShell.Proofs.PipelineIsolation
import LineShell.Proofs.SessionRounds

/-!
# The terminal from line to line

An interactive session reads keys in raw mode and gives the terminal back before anything is run. A
command may leave the terminal in any mode. The next command finds it in this mode, the next line is
read in the raw form of it, and it is the mode in which the session leaves the terminal.

## Implementation notes

The events of a session are told along with its run. For a pipeline this takes a second definition,
`Execution.tracedStages`, since a stage may be run again with more patience for its pipe, and only
what it does the last time counts. Without its events it is `Execution.stages`.

`HandedOn` is what every part of a session preserves: each event finds the mode that the one before
it left.
-/

namespace LineShell

/-- What happens at a terminal. -/
inductive TerminalEvent where
  /-- The keys of a line are read, in some mode. -/
  | keys (mode : Option TerminalMode)
  /-- A command finds the terminal in some mode, and leaves it in some mode. -/
  | command (found left : Option TerminalMode)
  deriving DecidableEq, Repr

namespace TerminalEvent

/-- The mode of a terminal after an event, which is its own mode between lines. -/
def modeAfter (mode : Option TerminalMode) : TerminalEvent → Option TerminalMode
  | .keys _ => mode
  | .command _ left => left

/-- An event that takes the terminal as it is: a command finds it in its mode, and keys are read in
this mode with three settings off and every octet delivered at once. -/
def Fits (mode : Option TerminalMode) : TerminalEvent → Prop
  | .keys reading => reading = mode.map fun mode =>
      { mode with canonical := false, echo := false, signals := false, minimum := 1, time := 0 }
  | .command found _ => found = mode

/-- The mode in which an event reads keys. -/
def reading? : TerminalEvent → Option TerminalMode
  | .keys mode => mode
  | .command _ _ => none

end TerminalEvent

/-- The mode that the last command left, or the first mode if there was none. -/
def modeLeft (mode : Option TerminalMode) (events : List TerminalEvent) : Option TerminalMode :=
  events.foldl TerminalEvent.modeAfter mode

/-- Events that hand a terminal on from one to the next. -/
inductive HandedOn : Option TerminalMode → List TerminalEvent → Option TerminalMode → Prop
  | nil (mode : Option TerminalMode) : HandedOn mode [] mode
  | cons {mode last : Option TerminalMode} {event : TerminalEvent} {rest : List TerminalEvent}
      (fits : event.Fits mode) (tail : HandedOn (event.modeAfter mode) rest last) :
      HandedOn mode (event :: rest) last

namespace HandedOn

variable {mode middle last : Option TerminalMode} {events more : List TerminalEvent}

theorem append (h : HandedOn mode events middle) (hmore : HandedOn middle more last) :
    HandedOn mode (events ++ more) last := by
  induction h with
  | nil mode => exact hmore
  | cons fits tail ih => exact .cons fits (ih hmore)

theorem command (found left : Option TerminalMode) :
    HandedOn found [.command found left] left := .cons rfl (.nil left)

theorem eq_modeLeft (h : HandedOn mode events last) : last = modeLeft mode events := by
  induction h with
  | nil mode => rfl
  | cons fits tail ih => exact ih

/-- Wherever the events are cut, the next one takes the terminal as those before it left it. -/
theorem fits {before after : List TerminalEvent} {event : TerminalEvent}
    (h : HandedOn mode (before ++ event :: after) last) :
    event.Fits (modeLeft mode before) := by
  induction before generalizing mode with
  | nil =>
      cases h with
      | cons fits tail => exact fits
  | cons first rest ih =>
      cases h with
      | cons fits tail => exact ih tail

end HandedOn

namespace Machine

/-- Attempts that come to the same in some respect come to the same when they are made patiently, if
patience is decided by it. -/
theorem map_patiently {α β : Type} (f : α → β) {attempt : Machine → α} {other : Machine → β}
    {wanted : α → Option Nat} {otherWanted : β → Option Nat}
    (hattempt : ∀ m, f (attempt m) = other m) (hwanted : ∀ a, otherWanted (f a) = wanted a)
    (n : Nat) (m : Machine) :
    f (patiently attempt wanted n m) = patiently other otherWanted n m := by
  induction n generalizing m with
  | zero => exact hattempt m
  | succ n ih =>
      simp only [patiently, ← hattempt, hwanted]
      cases wanted (attempt m) with
      | none => rfl
      | some written => exact ih (m.morePatient written)

end Machine

namespace Execution

variable {host : Host} {shell : Shell} {m : Machine} {command : Command} {streams : Streams}
  {process : Nat}

/-- What a program does to the terminal, if it can be started. -/
def programEvents (host : Host) (shell : Shell) (command : Command) (path : String)
    (streams : Streams) (process : Nat) (m : Machine) : List TerminalEvent :=
  match host.programs.start path (stageCall host shell command streams process) m with
  | .ok (after, _) => [.command m.terminal after.terminal]
  | .error _ => []

/-- What a command does to the terminal, if there is such a command. -/
def commandEvents (host : Host) (shell : Shell) (command : Command) (streams : Streams)
    (process : Nat) (m : Machine) : List TerminalEvent :=
  match Redirection.openAll m shell.directory command.redirects with
  | (_, .error _) => []
  | (m, .ok redirection) =>
    let streams := redirection.apply streams
    match Builtin.ofName? command.program with
    | some b =>
      [.command m.terminal (b.run command.operands streams shell m).1.terminal]
    | none =>
      match Lookup.find? m.volume shell.directory shell.environment command.program with
      | none => []
      | some path =>
        if (path :: command.arguments).any hasNul then []
        else programEvents host shell command path streams process m

/-- The stages of a pipeline with what they do to the terminal. -/
def tracedStages (host : Host) (shell : Shell) (process input : Nat) :
    List Command → Machine → (Machine × List Ending) × List TerminalEvent
  | [], m => ((m, []), [])
  | [command], m =>
    let streams := { host.streams with input := input }
    let (after, ending) := stage host shell command streams process m
    ((after, [ending]), commandEvents host shell command streams process m)
  | command :: next :: rest, start =>
    let pipe := start.channels.length
    let streams : Streams := ⟨input, pipe, host.streams.error⟩
    Machine.patiently
      (fun m =>
        let (opened, _) := m.addChannel (.stream .pipe)
        let (after, ending) := stage host shell command streams process opened
        let left := (after.closeFrom (pipe + 1)).cutIfStarved input pipe
        let ((last, endings), events) := tracedStages host shell (process + 1) pipe (next :: rest)
          { left with patience := start.patience }
        ((last.reopenIfBlocked start input pipe, ending :: endings),
          commandEvents host shell command streams process opened ++ events))
      (fun result => result.1.1.wanted? input pipe) Machine.mostAttempts start

/-- What the commands on a line do to the terminal. -/
def lineEvents (host : Host) (shell : Shell) (m : Machine) : List Command → List TerminalEvent
  | [] => []
  | [command] => commandEvents host shell command host.streams (host.process + 1) m
  | commands => (tracedStages host shell (host.process + 1) host.streams.input commands m).2

theorem fst_tracedStages (host : Host) (shell : Shell) (process input : Nat)
    (commands : List Command) (m : Machine) :
    (tracedStages host shell process input commands m).1 =
      stages host shell process input commands m := by
  induction commands generalizing process input m with
  | nil => rfl
  | cons command rest ih =>
      cases rest with
      | nil => rfl
      | cons next rest =>
          simp only [tracedStages, stages]
          apply Machine.map_patiently Prod.fst
          · intro m
            simp only [← ih]
          · intro result
            rfl

theorem handedOn_runProgram (host : Host) (shell : Shell) (command : Command) (path : String)
    (streams : Streams) (process : Nat) (m : Machine) :
    HandedOn m.terminal (programEvents host shell command path streams process m)
      (runProgram host shell command path streams process m).1.terminal := by
  unfold programEvents runProgram stageCall
  dsimp only
  cases host.programs.start path _ m with
  | ok result => exact .command _ _
  | error e =>
      dsimp only
      rw [Machine.endWith_fst, Machine.terminal_printOrSkip]
      exact .nil _

/-- A builtin does the same to the terminal as a process. -/
theorem terminal_runBuiltin (b : Builtin) (shell : Shell) (operands : List String)
    (streams : Streams) (m : Machine) :
    (runBuiltin b shell operands streams m).1.terminal =
      (b.run operands streams shell m).1.terminal := by
  by_cases h : b.IsUnread operands streams shell m
  · obtain ⟨after, failure, hkilled, hrun⟩ := Builtin.exists_failure_of_isUnread h
    rw [hkilled, hrun, Machine.terminal_printOrSkip]
  · rw [Builtin.runBuiltin_of_not_isUnread h]

theorem handedOn_stage (host : Host) (shell : Shell) (command : Command) (streams : Streams)
    (process : Nat) (m : Machine) :
    HandedOn m.terminal (commandEvents host shell command streams process m)
      (stage host shell command streams process m).1.terminal := by
  have hopened := Redirection.terminal_openFrom .none m shell.directory command.redirects
  unfold commandEvents stage Redirection.openAll
  rw [← hopened]
  rcases Redirection.openFrom .none m shell.directory command.redirects with
    ⟨opened, e | redirection⟩
  · dsimp only
    rw [Machine.endWith_fst, Machine.terminal_printOrSkip]
    exact .nil _
  · dsimp only
    cases Builtin.ofName? command.program with
    | some b =>
        dsimp only
        rw [terminal_runBuiltin]
        exact .command _ _
    | none =>
        dsimp only
        cases Lookup.find? opened.volume shell.directory shell.environment command.program with
        | none =>
            dsimp only
            rw [Machine.endWith_fst, Machine.terminal_printOrSkip]
            exact .nil _
        | some path =>
            dsimp only
            split
            · rw [Machine.endWith_fst, Machine.terminal_printOrSkip]
              exact .nil _
            · exact handedOn_runProgram ..

/-- On its own a command does the same to the terminal as in a pipeline. -/
theorem terminal_single (host : Host) (shell : Shell) (command : Command) (m : Machine) :
    (single host shell m command).1.terminal =
      (stage host shell command host.streams (host.process + 1) m).1.terminal := by
  unfold single stage
  rcases Redirection.openAll m shell.directory command.redirects with ⟨opened, e | redirection⟩
  · simp
  · dsimp only
    cases Builtin.ofName? command.program with
    | some b => exact (terminal_runBuiltin ..).symm
    | none =>
        dsimp only
        cases Lookup.find? opened.volume shell.directory shell.environment command.program with
        | none => simp
        | some path =>
            dsimp only
            split
            · simp
            · rfl

/-- Every stage of a pipeline finds the terminal as the one before it left it. -/
theorem handedOn_stages (host : Host) (shell : Shell) (process input : Nat)
    (commands : List Command) (m : Machine) :
    HandedOn m.terminal (tracedStages host shell process input commands m).2
      (stages host shell process input commands m).1.terminal := by
  rw [← fst_tracedStages]
  induction commands generalizing process input m with
  | nil => exact .nil _
  | cons command rest ih =>
      cases rest with
      | nil => exact handedOn_stage ..
      | cons next rest =>
          simp only [tracedStages]
          obtain ⟨patience, hpatience⟩ := Machine.exists_patiently_eq _ _ _ m
          rw [hpatience]
          have hfirst := handedOn_stage host shell command ⟨input, m.channels.length,
            host.streams.error⟩ process
            ({ m with patience := patience }.addChannel (.stream .pipe)).1
          rw [Machine.terminal_addChannel] at hfirst
          dsimp only
          rw [Machine.terminal_reopenIfBlocked]
          refine hfirst.append ?_
          have hrest := ih (process + 1) m.channels.length
            (Turn.after ⟨process, input, m⟩ host shell command patience).machine
          have hleft :
              (Turn.after ⟨process, input, m⟩ host shell command patience).machine.terminal =
              (stage host shell command ⟨input, m.channels.length, host.streams.error⟩ process
                ({ m with patience := patience }.addChannel (.stream .pipe)).1).1.terminal :=
            Machine.terminal_cutIfStarved ..
          rw [hleft] at hrest
          exact hrest

/-- The commands on a line hand the terminal on from one to the next. -/
theorem handedOn_execute (host : Host) (shell : Shell) (m : Machine) (commands : List Command) :
    HandedOn m.terminal (lineEvents host shell m commands)
      (execute host shell m commands).1.terminal := by
  unfold execute
  dsimp only
  rw [Machine.terminal_closeFrom]
  cases commands with
  | nil => exact .nil _
  | cons command rest =>
      cases rest with
      | nil =>
          have hstage := handedOn_stage host shell command host.streams (host.process + 1) m
          rw [← terminal_single] at hstage
          exact hstage
      | cons next rest => exact handedOn_stages ..

/-! ### No keys are read while a line is run -/

theorem noKeys_commandEvents (host : Host) (shell : Shell) (command : Command) (streams : Streams)
    (process : Nat) (m : Machine) :
    (commandEvents host shell command streams process m).filterMap TerminalEvent.reading? = [] := by
  unfold commandEvents
  split
  · rfl
  · dsimp only
    split
    · rfl
    · split
      · rfl
      · split
        · rfl
        · unfold programEvents
          split <;> rfl

theorem noKeys_tracedStages (host : Host) (shell : Shell) (process input : Nat)
    (commands : List Command) (m : Machine) :
    (tracedStages host shell process input commands m).2.filterMap TerminalEvent.reading? = [] := by
  induction commands generalizing process input m with
  | nil => rfl
  | cons command rest ih =>
      cases rest with
      | nil => exact noKeys_commandEvents ..
      | cons next rest =>
          simp only [tracedStages]
          obtain ⟨patience, hpatience⟩ := Machine.exists_patiently_eq _ _ _ m
          rw [hpatience]
          simp only [List.filterMap_append, noKeys_commandEvents, ih, List.append_nil]

theorem noKeys_lineEvents (host : Host) (shell : Shell) (m : Machine) (commands : List Command) :
    (lineEvents host shell m commands).filterMap TerminalEvent.reading? = [] := by
  cases commands with
  | nil => rfl
  | cons command rest =>
      cases rest with
      | nil => exact noKeys_commandEvents ..
      | cons next rest => exact noKeys_tracedStages ..

end Execution

namespace Session

variable {settings : Settings} {host : Host} {s : Session}

/-- What happens at the terminal in a turn: keys of a line are read and its commands are run. -/
def turnEvents (settings : Settings) (host : Host) (s : Session) : List TerminalEvent :=
  .keys (readingMode settings s.machine) ::
    match s.readLine settings host with
    | (ready, .line line) =>
      Execution.lineEvents host (ready.recording line) (ready.lend settings host) (parseLine line)
    | _ => []

/-- What happens at the terminal in the turns of a session, a given number of them at most. -/
def turnsEvents (settings : Settings) (host : Host) : Nat → Session → List TerminalEvent
  | 0, _ => []
  | n + 1, s =>
    s.turnEvents settings host ++
      match s.turn settings host with
      | (_, some _) => []
      | (next, none) => turnsEvents settings host n next

/-- What happens at the terminal in a run of a session. -/
def events (settings : Settings) (host : Host) (s : Session) : List TerminalEvent :=
  turnsEvents settings host (s.input.length + 1)
    (loadHistory (historyFile settings s.shell) s)

theorem terminal_runLine (settings : Settings) (host : Host) (s : Session) (line : String) :
    (s.runLine settings host line).1.machine.terminal =
      (Execution.runLine host (s.recording line) (s.lend settings host) line).1.terminal := by
  unfold runLine recording
  dsimp only
  split
  · rfl
  · split
    · rfl
    · rfl
    · exact Machine.terminal_printOrSkip ..

/-- A turn of an interactive session hands the terminal on. -/
theorem handedOn_turn (hinteractive : settings.interactive = true) (host : Host) (s : Session) :
    HandedOn s.machine.terminal (s.turnEvents settings host)
      (s.turn settings host).1.machine.terminal := by
  have hreading : TerminalEvent.Fits s.machine.terminal
      (.keys (readingMode settings s.machine)) := by
    simp only [readingMode, hinteractive, if_true]
    rfl
  have hrestored := terminal_readLine settings host s
  refine .cons hreading ?_
  unfold turn
  rcases hread : s.readLine settings host with ⟨ready, outcome⟩
  rw [hread] at hrestored
  cases outcome with
  | line line =>
      dsimp only
      rw [terminal_runLine]
      have hline := Execution.handedOn_execute host (ready.recording line)
        (ready.lend settings host) (parseLine line)
      rw [terminal_lend, hrestored] at hline
      exact hline
  | interrupted | endOfInput | failed =>
      dsimp only
      rw [hrestored]
      exact .nil _

theorem modes_runLine (settings : Settings) (host : Host) (s : Session) (line : String) :
    (s.runLine settings host line).1.modes = s.modes := by
  unfold runLine
  dsimp only
  split
  · rfl
  · split <;> rfl

/-- The mode in which the keys of a turn are read is noted in the session. -/
theorem modes_turn (settings : Settings) (host : Host) (s : Session) :
    (s.turn settings host).1.modes =
      s.modes ++ (s.turnEvents settings host).filterMap TerminalEvent.reading? := by
  have hkeys (rest : List TerminalEvent) (hrest : rest.filterMap TerminalEvent.reading? = []) :
      (.keys (readingMode settings s.machine) :: rest).filterMap TerminalEvent.reading? =
        (readingMode settings s.machine).toList := by
    rw [List.filterMap_cons, hrest]
    cases readingMode settings s.machine <;> rfl
  have hnoted : (s.readLine settings host).1.modes =
      s.modes ++ (readingMode settings s.machine).toList := rfl
  unfold turn turnEvents
  rcases hread : s.readLine settings host with ⟨ready, outcome⟩
  rw [hread] at hnoted
  cases outcome with
  | line line =>
      dsimp only
      rw [modes_runLine, hkeys _ (Execution.noKeys_lineEvents ..)]
      exact hnoted
  | interrupted | endOfInput | failed =>
      dsimp only
      rw [hkeys _ rfl]
      exact hnoted

/-- Turns of an interactive session hand the terminal on, and note every mode in which they read. -/
theorem handedOn_turns (hinteractive : settings.interactive = true) (host : Host) (n : Nat)
    (s : Session) :
    HandedOn s.machine.terminal (turnsEvents settings host n s)
        (turns settings host n s).1.machine.terminal ∧
      (turns settings host n s).1.modes =
        s.modes ++ (turnsEvents settings host n s).filterMap TerminalEvent.reading? := by
  induction n generalizing s with
  | zero => exact ⟨.nil _, (List.append_nil _).symm⟩
  | succ n ih =>
      have hturn := handedOn_turn hinteractive host s
      have hmodes := modes_turn settings host s
      simp only [turns, turnsEvents]
      rcases hnext : s.turn settings host with ⟨next, _ | ending⟩
      · rw [hnext] at hturn hmodes
        obtain ⟨hrest, hlater⟩ := ih next
        refine ⟨hturn.append hrest, ?_⟩
        rw [hlater, hmodes, List.filterMap_append, List.append_assoc]
      · rw [hnext] at hturn hmodes
        dsimp only
        rw [List.append_nil]
        exact ⟨hturn, hmodes⟩

theorem modes_loadHistory (file : Option String) (s : Session) :
    (loadHistory file s).modes = s.modes := by
  unfold loadHistory
  split
  · rfl
  · split <;> rfl

theorem modes_leaving (file : Option String) (last : Session) (ending : SessionEnd) :
    (leaving file last ending).modes = last.modes := by
  have hsaved : (saveHistory file last).modes = last.modes := by
    unfold saveHistory
    split
    · rfl
    · split <;> rfl
  cases ending with
  | killed signal => rfl
  | finished code => exact hsaved
  | inputFailed fault => exact hsaved

/-- In an interactive session keys are read in the raw form of the mode that the last command left,
and every command finds the terminal in the mode that the one before it left; before the first
command it is the mode in which the session found the terminal. When the session has ended, in
whatever way, the terminal is in the mode that the last command left. -/
theorem terminal_of_run (hinteractive : settings.interactive = true) (host : Host) (s : Session) :
    (∀ before event after, events settings host s = before ++ event :: after →
        event.Fits (modeLeft s.machine.terminal before)) ∧
      (run settings host s).1.machine.terminal =
        modeLeft s.machine.terminal (events settings host s) ∧
      (run settings host s).1.modes =
        s.modes ++ (events settings host s).filterMap TerminalEvent.reading? := by
  have hmore :
      (loadHistory (historyFile settings s.shell) s).input.length < s.input.length + 1 := by
    rw [input_loadHistory]
    exact Nat.lt_succ_self _
  obtain ⟨lines, hruns⟩ := exists_runs settings host hmore
  obtain ⟨hhanded, hmodes⟩ := handedOn_turns hinteractive host (s.input.length + 1)
    (loadHistory (historyFile settings s.shell) s)
  rw [machine_loadHistory] at hhanded
  rw [modes_loadHistory] at hmodes
  rw [run_eq_leaving hruns]
  refine ⟨?_, ?_, ?_⟩
  · intro before event after hevents
    rw [events] at hevents
    rw [hevents] at hhanded
    exact hhanded.fits
  · rw [terminal_leaving]
    exact hhanded.eq_modeLeft
  · rw [modes_leaving]
    exact hmodes

/-- A program that makes the terminal show no keys, and one that asks for four octets at once. -/
def modeSetters : Programs
  | "quiet" => some fun _ m => ({ m with terminal := m.terminal.map ({ · with echo := false }) },
      .exited 0)
  | "four" => some fun _ m => ({ m with terminal := m.terminal.map ({ · with minimum := 4 }) },
      .exited 0)
  | _ => none

/-- A session at a terminal with both programs. -/
def atTerminal (input : String) : Session :=
  ⟨⟨.empty, .empty, .root, .empty⟩,
    ⟨(Volume.empty.create [.text "quiet"] (.program "quiet")).create [.text "four"]
      (.program "four"), [.tape [] 0, .stream .empty, .stream .empty],
      some (.ofNew true true true 1 0), [], 1⟩,
    (octets input).map .octet, "", []⟩

/-- Two commands in a pipeline set the terminal, a line is abandoned, and the input ends. -/
theorem terminal_of_run_of_pipeline :
    (⟨"$ ", none, true, false⟩ : Settings).interactive = true ∧
      (run ⟨"$ ", none, true, false⟩ ⟨modeSetters, ⟨0, 1, 2⟩, 1⟩
        (atTerminal "/quiet|/four\nx\x03")).1.machine.terminal =
        some { TerminalMode.ofNew true true true 1 0 with echo := false, minimum := 4 } := by
  have hevents : events ⟨"$ ", none, true, false⟩ ⟨modeSetters, ⟨0, 1, 2⟩, 1⟩
      (atTerminal "/quiet|/four\nx\x03") =
        let initial := TerminalMode.ofNew true true true 1 0
        let quiet := { initial with echo := false }
        let four := { quiet with minimum := 4 }
        [.keys (some initial.raw), .command (some initial) (some quiet),
          .command (some quiet) (some four), .keys (some four.raw), .keys (some four.raw)] := by
    decide +kernel
  obtain ⟨-, hlast, -⟩ := @terminal_of_run ⟨"$ ", none, true, false⟩ rfl
    ⟨modeSetters, ⟨0, 1, 2⟩, 1⟩ (atTerminal "/quiet|/four\nx\x03")
  refine ⟨rfl, ?_⟩
  rw [hlast, hevents]
  rfl

end Session

end LineShell
