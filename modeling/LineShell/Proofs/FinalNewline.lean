import LineShell.Proofs.LastLine
import LineShell.Proofs.PromptAgain

/-!
# A missing final newline

A newline at the end of the input makes no difference to a session, as long as commands leave the
input alone: it ends in the same way, in the same directory, with the same history and the same
machine. If the editor shows its lines on the standard output, there is one exception: where the
input ends on an empty line, the shell prompts once more before it saves the history.

## Implementation notes

Runs are compared turn by turn until a line comes to the end of the input. From then on either the
same is left to be read in both of them, or an empty line is run in one of them where the other one
ends.
-/

namespace LineShell

namespace Session

variable {settings : Settings} {host : Host} {s t last : Session}

/-- The session `t` has a run that ends as one does that leads from `s` to `last`. One more line is
read in it if the input of `s` ends on an empty line. -/
def RunsAppended (settings : Settings) (host : Host) (s t last : Session) (ending : SessionEnd) :
    Prop :=
  ∃ others final, Runs settings host t others final ending ∧
    (¬EndsOnEmptyLine settings host s → InStep settings host last final) ∧
    (EndsOnEmptyLine settings host s →
      ending = .finished 0 ∧ InStep settings host (last.promptAgain settings host) final)

/-- Where a line is open when the input ends, it decides how the runs differ. -/
theorem InStep.runsAppended_of_open {state : LineState} {lines : List String} {ending : SessionEnd}
    (isOpen : s.openEnd? settings = some state) (h : InStep settings host s t)
    (hinput : t.input = s.input ++ [newline]) (halive : fatal? settings host s.machine = none)
    (hleaves : LeavesInput settings host s) (hruns : Runs settings host s lines last ending) :
    RunsAppended settings host s t last ending := by
  by_cases hempty : state.buffer = "" ∧ state.escape = .none
  · obtain ⟨houtcome, hrest, hother⟩ :=
      reading_append_of_empty isOpen hempty.1 hempty.2 h.toAlike hinput
    have hturn : s.turn settings host = ((s.readLine settings host).1, some (.finished 0)) := by
      rw [turn_eq, houtcome]
    obtain ⟨others, final, hothers, hlast⟩ := h.exists_runs_of_empty halive hrest hother
    cases hruns with
    | ends turn_eq =>
        rw [hturn] at turn_eq
        obtain ⟨rfl, hending⟩ := Prod.mk.inj turn_eq
        obtain rfl := Option.some.inj hending
        exact ⟨others, final, hothers,
          fun hnot => absurd (.now isOpen hempty.1 hempty.2) hnot, fun _ => ⟨rfl, hlast⟩⟩
    | goesOn turn_eq rest => simp [hturn] at turn_eq
  · obtain ⟨others, final, hothers, hlast⟩ :=
      h.exists_runs (reading_append_of_open isOpen hempty h.toAlike hinput) hleaves hruns
    refine ⟨others, final, hothers, fun _ => hlast, fun hends => ?_⟩
    cases hends with
    | now isOpen' buffer_eq escape_eq =>
        obtain rfl := Option.some.inj (isOpen.symm.trans isOpen')
        exact absurd ⟨buffer_eq, escape_eq⟩ hempty
    | later isClosed => simp [isOpen] at isClosed

/-- With a newline more at the end of the input a run takes the same turns, and one more if the
input ends on an empty line. -/
theorem InStep.runsAppended {lines : List String} {ending : SessionEnd}
    (h : InStep settings host s t) (hinput : t.input = s.input ++ [newline])
    (halive : fatal? settings host s.machine = none) (hleaves : LeavesInput settings host s)
    (hruns : Runs settings host s lines last ending) :
    RunsAppended settings host s t last ending := by
  induction hruns generalizing t with
  | @ends s last ending turn_eq =>
      cases hopen : s.openEnd? settings with
      | some state => exact h.runsAppended_of_open hopen hinput halive hleaves (.ends turn_eq)
      | none =>
          have hreading := reading_append_of_closed hopen h.toAlike hinput
          obtain ⟨hending, hlast, -⟩ := h.turn hleaves hreading
          rw [turn_eq] at hending hlast
          refine ⟨_, _, .ends (Prod.ext rfl hending), fun _ => hlast, fun hends => ?_⟩
          cases hends with
          | now isOpen => simp [hopen] at isOpen
          | later _ goes_on => simp [turn_eq] at goes_on
  | @goesOn s next last lines ending turn_eq rest ih =>
      cases hopen : s.openEnd? settings with
      | some state =>
          exact h.runsAppended_of_open hopen hinput halive hleaves (.goesOn turn_eq rest)
      | none =>
          have hreading := reading_append_of_closed hopen h.toAlike hinput
          obtain ⟨hending, hnext, hfirst, hsecond⟩ := h.turn hleaves hreading
          rw [turn_eq] at hending hnext hfirst
          obtain ⟨others, final, hothers, hsame, hmore⟩ :=
            ih hnext (by rw [hsecond, hfirst]) (fatal?_turn halive turn_eq)
              (hleaves.turn turn_eq)
          -- The session goes on, so it ends on an empty line if the rest of it does.
          have hiff : EndsOnEmptyLine settings host s ↔ EndsOnEmptyLine settings host next := by
            refine ⟨fun hends => ?_, .later hopen turn_eq⟩
            cases hends with
            | now isOpen => simp [hopen] at isOpen
            | later _ goes_on rest =>
                rw [turn_eq] at goes_on
                exact (Prod.mk.inj goes_on).1 ▸ rest
          rw [RunsAppended, hiff]
          exact ⟨_, final, .goesOn (Prod.ext rfl hending) hothers, hsame, hmore⟩

/-! ## From the beginning -/

/-- A session before it begins, with some keys. If the input is shared, the keys are in a file on
it. -/
def beginning (settings : Settings) (host : Host) (shell : Shell) (m : Machine)
    (input : List Read) : Session :=
  ⟨shell, withTape settings host (delivered input) 0 m, input, "", []⟩

/-- A session before its first line. -/
def begun (settings : Settings) (host : Host) (shell : Shell) (m : Machine) (input : List Read) :
    Session :=
  loadHistory (historyFile settings shell) (beginning settings host shell m input)

/-- A run of the shell over some keys. -/
def runOver (settings : Settings) (host : Host) (shell : Shell) (m : Machine)
    (input : List Read) : Session × SessionEnd :=
  run settings host (beginning settings host shell m input)

variable {shell : Shell} {m : Machine} {input : List Read}

theorem inStep_beginning (shell : Shell) (first second : List Read)
    (hrow : settings.standardStreams = true → host.streams.input < m.channels.length) :
    InStep settings host (beginning settings host shell m first)
      (beginning settings host shell m second) := by
  have hfed (input : List Read) : Fed settings host (beginning settings host shell m input) := by
    intro hshared
    refine ⟨delivered input, 0, ?_, Nat.le_refl _⟩
    simp only [beginning, withTape, hshared, if_true, Machine.channel?_setChannel_self]
    rw [Machine.channel?, List.getElem?_eq_getElem (hrow hshared)]
    rfl
  exact ⟨⟨rfl, rfl, rfl, _, _, (withTape_withTape ..).symm⟩, hfed first, hfed second⟩

/-- Saving the history does not move the shell to another directory. -/
theorem directory_saveHistory (file : Option String) (s : Session) :
    (saveHistory file s).shell.directory = s.shell.directory := by
  simp only [saveHistory]
  split
  · rfl
  · split <;> rfl

/-- A run over some keys, and the one with a newline more: they end in the same way, and in sessions
that are alike but for a prompt. -/
theorem exists_runOver (halive : fatal? settings host m = none)
    (hrow : settings.standardStreams = true → host.streams.input < m.channels.length)
    (hleaves : LeavesInput settings host (begun settings host shell m input)) :
    ∃ lines last final ending,
      Runs settings host (begun settings host shell m input) lines last ending ∧
      runOver settings host shell m (input ++ [newline]) =
        (leaving (historyFile settings shell) final ending, ending) ∧
      (¬EndsOnEmptyLine settings host (begun settings host shell m input) →
        InStep settings host last final) ∧
      (EndsOnEmptyLine settings host (begun settings host shell m input) →
        ending = .finished 0 ∧ InStep settings host (last.promptAgain settings host) final) := by
  obtain ⟨lines, hruns⟩ := exists_runs settings host
    (Nat.lt_succ_self (begun settings host shell m input).input.length)
  have hstep := (inStep_beginning shell input (input ++ [newline]) hrow).loadHistory
    (historyFile settings shell)
  obtain ⟨others, final, hothers, hends⟩ := hstep.runsAppended
    (by rw [input_loadHistory, input_loadHistory]; rfl)
    (by rwa [machine_loadHistory, beginning, fatal?_withTape]) hleaves hruns
  exact ⟨lines, _, final, _, hruns, run_eq_leaving hothers, hends⟩

/-- A newline at the end of the input changes neither how a run of the shell ends nor the directory
and the history at its end, if no signal has ended the shell before and its commands leave the input
alone. Nor does it change the machine, unless the lines are shown on the standard output and the
input ends on an empty line. Then the run is as if the prompt were shown once more before the
history is saved. If it is shown on a stream, this is the same as after the history is saved. -/
theorem run_append_newline (settings : Settings) (host : Host) (shell : Shell) (m : Machine)
    (input : List Read) (halive : fatal? settings host m = none)
    (hrow : settings.standardStreams = true → host.streams.input < m.channels.length)
    (hleaves : LeavesInput settings host (begun settings host shell m input)) :
    (runOver settings host shell m (input ++ [newline])).2 =
        (runOver settings host shell m input).2 ∧
      (runOver settings host shell m (input ++ [newline])).1.shell.directory =
        (runOver settings host shell m input).1.shell.directory ∧
      (runOver settings host shell m (input ++ [newline])).1.shell.history.lines =
        (runOver settings host shell m input).1.shell.history.lines ∧
      (settings.standardStreams = false →
        (runOver settings host shell m (input ++ [newline])).1.machine =
          (runOver settings host shell m input).1.machine) ∧
      (¬EndsOnEmptyLine settings host (begun settings host shell m input) →
        Alike settings host (runOver settings host shell m input).1
          (runOver settings host shell m (input ++ [newline])).1) ∧
      (EndsOnEmptyLine settings host (begun settings host shell m input) →
        ∃ lines last,
          Runs settings host (begun settings host shell m input) lines last (.finished 0) ∧
          runOver settings host shell m input =
            (saveHistory (historyFile settings shell) last, .finished 0) ∧
          Alike settings host
            (saveHistory (historyFile settings shell) (last.promptAgain settings host))
            (runOver settings host shell m (input ++ [newline])).1 ∧
          ((settings.standardStreams = true → ∃ stream,
              last.machine.channel? host.streams.output = some (.stream stream)) →
            Alike settings host
              ((runOver settings host shell m input).1.promptAgain settings host)
              (runOver settings host shell m (input ++ [newline])).1)) := by
  obtain ⟨lines, last, final, ending, hruns, hsecond, hsame, hmore⟩ :=
    exists_runOver halive hrow hleaves
  have hfirst : runOver settings host shell m input =
      (leaving (historyFile settings shell) last ending, ending) := run_eq_leaving hruns
  rw [hfirst, hsecond]
  by_cases hends : EndsOnEmptyLine settings host (begun settings host shell m input)
  · obtain ⟨rfl, hfinal⟩ := hmore hends
    have hsaved := hfinal.saveHistory (historyFile settings shell)
    have hlater (hstream : settings.standardStreams = true → ∃ stream,
        last.machine.channel? host.streams.output = some (.stream stream)) :
        Alike settings host
          ((saveHistory (historyFile settings shell) last).promptAgain settings host)
          (saveHistory (historyFile settings shell) final) := by
      rwa [← saveHistory_promptAgain _ hstream]
    refine ⟨rfl, ?_, ?_, fun hown => ?_, absurd hends,
      fun _ => ⟨lines, last, hruns, rfl, hsaved, hlater⟩⟩
    · simp only [leaving, hsaved.shell, directory_saveHistory, promptAgain]
    · simp only [leaving, hsaved.shell, lines_saveHistory, promptAgain, History.resetCursor]
    · have hmachine := (hlater fun hshared => by simp [hown] at hshared).machine_eq hown
      simpa only [leaving, promptAgain, hown, Bool.false_eq_true, if_false] using hmachine
  · have hleft := (hsame hends).leaving (historyFile settings shell) ending
    exact ⟨rfl, by rw [hleft.shell], by rw [hleft.shell], hleft.machine_eq, fun _ => hleft,
      fun hempty => absurd hempty hends⟩

/-- Where nothing is left to be read, no line can read from the input. -/
theorem leavesInput_of_nil (hinput : s.input = []) : LeavesInput settings host s :=
  OnLines.of_nil hinput

theorem endsOnEmptyLine_of_nil (hinput : s.input = []) : EndsOnEmptyLine settings host s := by
  have hopen : s.openEnd? settings = some (.start s.shell.history) := by
    rw [openEnd?, hinput, Editor.openEnd?]
  exact .now hopen rfl rfl

/-- Settings of a shell that reads from the standard input and keeps no history. -/
def sharing : Settings := ⟨"$ ", none, false, true⟩

/-- A shell that knows nothing but where it is. -/
def bareShell : Shell := ⟨.empty, .empty, .root, .empty⟩

/-- A machine with the standard streams and nothing else. -/
def bareMachine : Machine := ⟨.empty, [.tape [] 0, .stream .empty, .stream .empty], none, [], 1⟩

/-- The keys of one line. -/
def echoKeys : List Read := (octets "echo hi\n").map .octet

/-- An empty line is finished after another line, and the prompt is shown once more. -/
theorem run_append_newline_after_echo :
    (runOver sharing bareHost bareShell bareMachine (echoKeys ++ [newline])).2 = .finished 0 ∧
      ((runOver sharing bareHost bareShell bareMachine
        (echoKeys ++ [newline])).1.machine.stream? 1).map (·.unread) =
          some (octets "$ echo hi\nhi\n$ \n$ \n") := by
  generalize hs : begun sharing bareHost bareShell bareMachine echoKeys = s
  have hread : (s.reading sharing).outcome = .line "echo hi" := by
    subst hs
    decide +kernel
  have hlent : ((s.readLine sharing bareHost).1.lend sharing bareHost).channel? 0 =
      some (.tape (octets "echo hi\n") 8) := by
    subst hs
    decide +kernel
  have hnext : (s.turn sharing bareHost).1.input = [] ∧ (s.turn sharing bareHost).2 = none := by
    subst hs
    decide +kernel
  have hclosed : s.openEnd? sharing = none := by
    subst hs
    decide +kernel
  have hleaves : LeavesInput sharing bareHost s := by
    refine .of_turn (fun line hline _ => ?_) fun next hturn => ?_
    · obtain rfl := ReadOutcome.line.inj (hread.symm.trans hline)
      have hparse : parseLine "echo hi" = [⟨"echo", ["hi"], []⟩] := by decide +kernel
      exact Execution.leavesInput_echo hparse hlent
    · rw [hturn] at hnext
      exact leavesInput_of_nil hnext.1
  have hends : EndsOnEmptyLine sharing bareHost s :=
    .later hclosed (Prod.ext rfl hnext.2) (endsOnEmptyLine_of_nil hnext.1)
  rw [← hs] at hleaves hends
  obtain ⟨hending, -, -, -, -, hmore⟩ := run_append_newline sharing bareHost bareShell bareMachine
    echoKeys rfl (fun _ => by decide) hleaves
  obtain ⟨lines, last, -, hrun, ⟨-, -, -, contents, offset, hmachine⟩, -⟩ := hmore hends
  obtain rfl : (runOver sharing bareHost bareShell bareMachine echoKeys).1 = last := by
    rw [hrun]
    rfl
  refine ⟨by rw [hending, hrun], ?_⟩
  have hother : ∀ (m : Machine), (withTape sharing bareHost contents offset m).stream? 1 =
      m.stream? 1 := by
    intro m
    have hne : bareHost.streams.input ≠ 1 := by decide
    simp only [withTape, sharing, if_true, Machine.stream?,
      Machine.channel?_setChannel_of_ne hne]
  rw [hmachine, hother]
  decide +kernel

/-- Where the input ends on an empty line, a newline is seen on the standard output. -/
theorem not_forall_run_append_newline :
    ¬∀ (settings : Settings) (host : Host) (shell : Shell) (m : Machine) (input : List Read),
      (∀ fault, .failed fault ∉ input) →
      fatal? settings host m = none →
      (settings.standardStreams = true → host.streams.input < m.channels.length) →
      LeavesInput settings host (begun settings host shell m input) →
      (runOver settings host shell m (input ++ [newline])).2 =
          (runOver settings host shell m input).2 ∧
        (runOver settings host shell m (input ++ [newline])).1.machine.channel?
            host.streams.output =
          (runOver settings host shell m input).1.machine.channel? host.streams.output ∧
        (runOver settings host shell m (input ++ [newline])).1.machine.channel?
            host.streams.error =
          (runOver settings host shell m input).1.machine.channel? host.streams.error ∧
        (runOver settings host shell m (input ++ [newline])).1.machine.volume =
          (runOver settings host shell m input).1.machine.volume ∧
        (runOver settings host shell m (input ++ [newline])).1.shell.directory =
          (runOver settings host shell m input).1.shell.directory ∧
        (runOver settings host shell m (input ++ [newline])).1.shell.history.lines =
          (runOver settings host shell m input).1.shell.history.lines := by
  intro h
  have hempty : (begun sharing bareHost bareShell bareMachine []).input = [] := rfl
  obtain ⟨-, houtput, -⟩ := h sharing bareHost bareShell bareMachine [] (by simp) rfl
    (fun _ => by decide) (leavesInput_of_nil hempty)
  have hshown : (runOver sharing bareHost bareShell bareMachine [newline]).1.machine.channel? 1 ≠
      (runOver sharing bareHost bareShell bareMachine []).1.machine.channel? 1 := by
    decide +kernel
  exact hshown houtput

end Session

end LineShell
