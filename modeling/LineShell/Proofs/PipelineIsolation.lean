import LineShell.Proofs.BrokenStreams

/-!
# A pipeline leaves the shell alone

Every stage of a pipeline works on a copy of the shell. What the shell learns from the pipeline is
the status of the last stage, and no stage can end the session.

## Implementation notes

The stages before the last one prepare the machine that the last one finds.
`Execution.ReachesLast` follows them one by one, whatever patience their pipes were given in the
end. `Execution.StageStatus` is what a stage reports to who waits for it, told by how far the stage
came.
-/

namespace LineShell

/-- A channel of which nobody knows whether a reader has come to its end. -/
def Channel.forgetEnd : Channel → Channel
  | .stream s => .stream { s with isEnded := false }
  | channel => channel

/-- A machine of which nobody knows how far its streams have been read. -/
def Machine.forgetEnds (m : Machine) : Machine :=
  { m with channels := m.channels.map Channel.forgetEnd }

theorem Machine.forgetEnds_reopenIfBlocked (m before : Machine) (input output : Nat) :
    (m.reopenIfBlocked before input output).forgetEnds = m.forgetEnds := by
  simp only [reopenIfBlocked]
  split
  · split
    · rename_i s hrow
      obtain ⟨hlt, hrow⟩ := List.getElem?_eq_some_iff.mp hrow
      have hsame :
          (m.channels.map Channel.forgetEnd).set input (.stream { s with isEnded := false }) =
            m.channels.map Channel.forgetEnd := by
        apply List.ext_getElem (by simp)
        intro i hi _
        rw [List.getElem_set]
        split
        · rename_i hinput
          subst hinput
          simp [hrow, Channel.forgetEnd]
        · rfl
      simp only [forgetEnds, setChannel, List.map_set, Channel.forgetEnd, hsame]
    · rfl
  · rfl

/-- Trying with more patience comes down to one try with some patience. -/
theorem Machine.exists_patiently_eq {α : Type} (attempt : Machine → α) (wanted : α → Option Nat)
    (n : Nat) (m : Machine) :
    ∃ patience, patiently attempt wanted n m = attempt { m with patience := patience } := by
  induction n generalizing m with
  | zero => exact ⟨m.patience, rfl⟩
  | succ n ih =>
      simp only [patiently]
      split
      · exact ih _
      · exact ⟨m.patience, rfl⟩

namespace Execution

variable {host : Host} {shell : Shell} {m : Machine}

/-- Where a pipeline stands: the process and the input of the next stage, and the machine. -/
structure Turn where
  process : Nat
  input : Nat
  machine : Machine

/-- Runs a stage whose output goes into a pipe that has some patience; the next stage reads it. -/
def Turn.after (turn : Turn) (host : Host) (shell : Shell) (command : Command) (patience : Nat) :
    Turn :=
  let pipe := turn.machine.channels.length
  let opened := ({ turn.machine with patience := patience }.addChannel (.stream .pipe)).1
  let streams : Streams := ⟨turn.input, pipe, host.streams.error⟩
  let left := (stage host shell command streams turn.process opened).1
  ⟨turn.process + 1, pipe, { (left.closeFrom (pipe + 1)).cutIfStarved turn.input pipe with
    patience := turn.machine.patience }⟩

/-- The stages before the last one lead from one turn to another. -/
inductive ReachesLast (host : Host) (shell : Shell) : List Command → Turn → Turn → Prop
  | last (command : Command) (turn : Turn) : ReachesLast host shell [command] turn turn
  | next {command next : Command} {rest : List Command} {turn final : Turn} (patience : Nat)
      (tail : ReachesLast host shell (next :: rest) (turn.after host shell command patience)
        final) :
      ReachesLast host shell (command :: next :: rest) turn final

/-- What a pipeline leaves is what its last command leaves, which ran where the others led; but a
stage that had to wait with its output has not come to the end of its input. -/
theorem exists_last_stage (host : Host) (shell : Shell) {commands : List Command}
    (hne : commands ≠ []) (process input : Nat) (m : Machine) :
    ∃ final last, ReachesLast host shell commands ⟨process, input, m⟩ final ∧
      stage host shell (commands.getLast hne) { host.streams with input := final.input }
        final.process final.machine = last ∧
      (stages host shell process input commands m).1.forgetEnds = last.1.forgetEnds ∧
      (stages host shell process input commands m).2.getLast? = some last.2 := by
  induction commands generalizing process input m with
  | nil => exact absurd rfl hne
  | cons command rest ih =>
      cases rest with
      | nil => exact ⟨_, _, .last command _, rfl, rfl, rfl⟩
      | cons next rest =>
          simp only [stages]
          obtain ⟨patience, hpatience⟩ := Machine.exists_patiently_eq _ _ _ m
          rw [hpatience]
          obtain ⟨final, last, hreaches, hstage, hmachine, hlast⟩ := ih (List.cons_ne_nil _ _)
            (process + 1) m.channels.length
            (Turn.after ⟨process, input, m⟩ host shell command patience).machine
          refine ⟨final, last, .next patience hreaches, ?_, ?_, ?_⟩
          · rw [List.getLast_cons (List.cons_ne_nil _ _)]
            exact hstage
          · rw [Machine.forgetEnds_reopenIfBlocked]
            exact hmachine
          · have hcons (ending : Ending) := congrArg (fun last => some (last.getD ending)) hlast
            rw [List.getLast?_cons]
            exact hcons _

/-- Every stage is waited for, and the last ending is that of the last command, which ran where the
others led. -/
theorem exists_reachesLast (host : Host) (shell : Shell) {commands : List Command}
    (hne : commands ≠ []) (process input : Nat) (m : Machine) :
    ∃ final, ReachesLast host shell commands ⟨process, input, m⟩ final ∧
      (stages host shell process input commands m).2.getLast? =
        some (stage host shell (commands.getLast hne) { host.streams with input := final.input }
          final.process final.machine).2 := by
  obtain ⟨final, last, hreaches, rfl, -, hlast⟩ :=
    exists_last_stage host shell hne process input m
  exact ⟨final, hreaches, hlast⟩

/-- What waiting gives when it succeeds every time: the status of the last process. -/
theorem waitForAll_eq_of_getLast {endings : List Ending} {last : Ending}
    (hwait : ∀ ending ∈ endings, (waitFor ending).isOk = true)
    (hlast : endings.getLast? = some last) : waitForAll endings = waitFor last := by
  suffices h : ∀ status, endings.foldlM (fun _ ending => waitFor ending) status = waitFor last
    from h 0
  induction endings with
  | nil => simp at hlast
  | cons ending rest ih =>
      intro status
      have hfirst := hwait ending List.mem_cons_self
      cases hending : waitFor ending with
      | error e => simp [hending, Except.isOk, Except.toBool] at hfirst
      | ok next =>
          simp only [List.foldlM_cons, hending, bind, Except.bind]
          cases rest with
          | nil =>
              obtain rfl := Option.some.inj hlast
              simp [hending, pure, Except.pure]
          | cons second rest =>
              exact ih (fun e he => hwait e (List.mem_cons_of_mem _ he)) hlast next

/-- A program was found for a command: its redirects are open, and it is no builtin. -/
structure IsFound (shell : Shell) (command : Command) (m opened : Machine)
    (redirection : Redirection) (path : String) : Prop where
  redirected : Redirection.openAll m shell.directory command.redirects = (opened, .ok redirection)
  external : Builtin.ofName? command.program = none
  found : Lookup.find? opened.volume shell.directory shell.environment command.program = some path

/-- What a program is called with as a stage. -/
def stageCall (host : Host) (shell : Shell) (command : Command) (streams : Streams)
    (process : Nat) : Call :=
  ⟨command.arguments, shell.inherited, shell.directory, streams, process, host.process, []⟩

/-- What a stage says that runs nothing: on which machine, in which row, and the status with which
it is about to end. -/
inductive LastWords (host : Host) (shell : Shell) (command : Command) (streams : Streams)
    (process : Nat) (m : Machine) : Machine → Nat → String → Nat → Prop
  | redirectFailed {opened : Machine} {e : ShellError}
      (refused : Redirection.openAll m shell.directory command.redirects = (opened, .error e)) :
      LastWords host shell command streams process m opened streams.error (errorLine e) 1
  | unknown {opened : Machine} {redirection : Redirection}
      (redirected : Redirection.openAll m shell.directory command.redirects =
        (opened, .ok redirection))
      (external : Builtin.ofName? command.program = none)
      (missing : Lookup.find? opened.volume shell.directory shell.environment command.program =
        none) :
      LastWords host shell command streams process m opened (redirection.apply streams).error
        (notFoundLine command.program) 127
  | nul {opened : Machine} {redirection : Redirection} {path : String}
      (found : IsFound shell command m opened redirection path)
      (nul : (path :: command.arguments).any hasNul = true) :
      LastWords host shell command streams process m opened (redirection.apply streams).error
        (errorLine (.nulByte command.program)) 127
  | notStarted {opened : Machine} {redirection : Redirection} {path : String} {e : Errno}
      (found : IsFound shell command m opened redirection path)
      (clean : (path :: command.arguments).any hasNul = false)
      (refused : host.programs.start path
        (stageCall host shell command (redirection.apply streams) process) opened = .error e) :
      LastWords host shell command streams process m opened (redirection.apply streams).error
        (command.program ++ ": " ++ e.processReport ++ "\n") 127

/-- The status that a stage reports, by how far it came and by whether anybody reads what it
writes. -/
inductive StageStatus (host : Host) (shell : Shell) (command : Command) (streams : Streams)
    (process : Nat) (m : Machine) : Int → Prop
  | failed {said : Machine} {row : Nat} {text : String} {code : Nat}
      (lastWords : LastWords host shell command streams process m said row text code)
      (read : ¬said.IsUnread row text) :
      StageStatus host shell command streams process m code
  | failedUnread {said : Machine} {row : Nat} {text : String} {code : Nat}
      (lastWords : LastWords host shell command streams process m said row text code)
      (unread : said.IsUnread row text) :
      StageStatus host shell command streams process m (128 + brokenPipeSignal)
  | builtin {opened after : Machine} {redirection : Redirection} {b : Builtin} {changed : Shell}
      {flow : Flow}
      (redirected : Redirection.openAll m shell.directory command.redirects =
        (opened, .ok redirection))
      (internal : Builtin.ofName? command.program = some b)
      (read : ¬b.IsUnread command.operands (redirection.apply streams) shell opened)
      (run : b.run command.operands (redirection.apply streams) shell opened =
        (after, changed, flow)) :
      StageStatus host shell command streams process m (flow.code % 256)
  | builtinUnread {opened : Machine} {redirection : Redirection} {b : Builtin}
      (redirected : Redirection.openAll m shell.directory command.redirects =
        (opened, .ok redirection))
      (internal : Builtin.ofName? command.program = some b)
      (unread : b.IsUnread command.operands (redirection.apply streams) shell opened) :
      StageStatus host shell command streams process m (128 + brokenPipeSignal)
  | exited {opened after : Machine} {redirection : Redirection} {path : String} {code : Nat}
      (found : IsFound shell command m opened redirection path)
      (clean : (path :: command.arguments).any hasNul = false)
      (ran : host.programs.start path
        (stageCall host shell command (redirection.apply streams) process) opened =
          .ok (after, .exited code)) :
      StageStatus host shell command streams process m code
  | killed {opened after : Machine} {redirection : Redirection} {path : String} {signal : Nat}
      (found : IsFound shell command m opened redirection path)
      (clean : (path :: command.arguments).any hasNul = false)
      (ran : host.programs.start path
        (stageCall host shell command (redirection.apply streams) process) opened =
          .ok (after, .killed signal)) :
      StageStatus host shell command streams process m (128 + signal)

/-- What a stage can come to: it runs nothing and says why, or it is a builtin, or a program was
started. -/
theorem stage_cases (host : Host) (shell : Shell) (command : Command) (streams : Streams)
    (process : Nat) (m : Machine) :
    (∃ said row text code, LastWords host shell command streams process m said row text code ∧
      stage host shell command streams process m = said.endWith row text (.exited code)) ∨
    (∃ opened redirection b,
      Redirection.openAll m shell.directory command.redirects = (opened, .ok redirection) ∧
      Builtin.ofName? command.program = some b ∧
      stage host shell command streams process m =
        runBuiltin b shell command.operands (redirection.apply streams) opened) ∨
    ∃ opened redirection path left, IsFound shell command m opened redirection path ∧
      (path :: command.arguments).any hasNul = false ∧
      host.programs.start path
        (stageCall host shell command (redirection.apply streams) process) opened = .ok left ∧
      stage host shell command streams process m = left := by
  simp only [stage]
  split
  case h_1 opened e hrefused =>
    exact .inl ⟨opened, _, _, 1, .redirectFailed hrefused, rfl⟩
  case h_2 opened redirection hredirects =>
    split
    case h_1 b hbuiltin => exact .inr (.inl ⟨opened, redirection, b, hredirects, hbuiltin, rfl⟩)
    case h_2 hexternal =>
      split
      case h_1 hmissing =>
        exact .inl ⟨opened, _, _, 127, .unknown hredirects hexternal hmissing, rfl⟩
      case h_2 path hfound =>
        have found : IsFound shell command m opened redirection path :=
          ⟨hredirects, hexternal, hfound⟩
        split
        case isTrue hnul => exact .inl ⟨opened, _, _, 127, .nul found hnul, rfl⟩
        case isFalse hnul =>
          have hclean := Bool.eq_false_iff.mpr hnul
          simp only [runProgram]
          split
          case h_1 after ending hstart =>
            exact .inr (.inr ⟨opened, redirection, path, _, found, hclean, hstart, rfl⟩)
          case h_2 e hrefused =>
            exact .inl ⟨opened, _, _, 127, .notStarted found hclean hrefused, rfl⟩

/-- A stage reports the status that belongs to how far it came. -/
theorem stageStatus_of_waitFor {command : Command} {streams : Streams} {process : Nat}
    {status : Int}
    (hwait : waitFor (stage host shell command streams process m).2 = .ok status) :
    StageStatus host shell command streams process m status := by
  rcases stage_cases host shell command streams process m with
    ⟨said, row, text, code, hwords, hstage⟩ |
    ⟨opened, redirection, b, hredirects, hbuiltin, hstage⟩ |
    ⟨opened, redirection, path, ⟨after, ending⟩, hfound, hclean, hstart, hstage⟩
  · rw [hstage] at hwait
    by_cases hunread : said.IsUnread row text
    · rw [Machine.endWith_of_isUnread hunread] at hwait
      obtain rfl := Except.ok.inj hwait
      exact .failedUnread hwords hunread
    · rw [Machine.endWith_of_not_isUnread hunread] at hwait
      obtain rfl := Except.ok.inj hwait
      exact .failed hwords hunread
  · rw [hstage] at hwait
    by_cases hunread : b.IsUnread command.operands (redirection.apply streams) shell opened
    · obtain ⟨after, failure, hrun, -⟩ := Builtin.exists_failure_of_isUnread hunread
      rw [hrun] at hwait
      obtain rfl := Except.ok.inj hwait
      exact .builtinUnread hredirects hbuiltin hunread
    · rw [Builtin.runBuiltin_of_not_isUnread hunread] at hwait
      obtain rfl := Except.ok.inj hwait
      have hcode := Int.toNat_of_nonneg (Int.emod_nonneg
        (b.run command.operands (redirection.apply streams) shell opened).2.2.code
        (show (256 : Int) ≠ 0 by decide))
      rw [hcode]
      exact .builtin hredirects hbuiltin hunread rfl
  · rw [hstage] at hwait
    cases ending with
    | exited code =>
        obtain rfl := Except.ok.inj hwait
        exact .exited hfound hclean hstart
    | killed signal =>
        simp only [waitFor] at hwait
        split at hwait
        · obtain rfl := Except.ok.inj hwait
          exact .killed hfound hclean hstart
        · simp at hwait

/-- When every wait succeeds, a pipeline of two or more commands gives the status of its last
command; it leaves the shell as it was and does not end the session. -/
theorem execute_pipeline {first second : Command} {rest : List Command}
    (hwait : ∀ ending ∈ (stages host shell (host.process + 1) host.streams.input
      (first :: second :: rest) m).2, (waitFor ending).isOk = true) :
    ∃ final status,
      ReachesLast host shell (first :: second :: rest)
        ⟨host.process + 1, host.streams.input, m⟩ final ∧
      StageStatus host shell ((second :: rest).getLast (List.cons_ne_nil _ _))
        { host.streams with input := final.input } final.process final.machine status ∧
      (execute host shell m (first :: second :: rest)).2 = (shell, .ok (.proceed status)) := by
  obtain ⟨final, hreaches, hlast⟩ := exists_reachesLast host shell
    (List.cons_ne_nil first (second :: rest)) (host.process + 1) host.streams.input m
  rw [List.getLast_cons (List.cons_ne_nil _ _)] at hlast
  have hall := waitForAll_eq_of_getLast hwait hlast
  have hok := hwait _ (List.mem_of_getLast? hlast)
  cases hstatus : waitFor (stage host shell ((second :: rest).getLast (List.cons_ne_nil _ _))
      { host.streams with input := final.input } final.process final.machine).2 with
  | error e => simp [hstatus, Except.isOk, Except.toBool] at hok
  | ok status =>
      refine ⟨final, status, hreaches, stageStatus_of_waitFor hstatus, ?_⟩
      simp only [execute, pipeline, hall, hstatus, Except.map]

theorem execute_pipeline_of_cd_and_exit :
    ∃ final status,
      ReachesLast ⟨fun _ => none, ⟨0, 1, 2⟩, 1⟩ ⟨.empty, .empty, ⟨[]⟩, ⟨["pwd"], 0, 1⟩⟩
        [⟨"cd", ["/"], []⟩, ⟨"none", [], []⟩, ⟨"exit", ["300"], []⟩]
        ⟨2, 0, ⟨.empty, [.tape [] 0, .stream .empty, .stream .empty], none, [], 1⟩⟩ final ∧
      StageStatus ⟨fun _ => none, ⟨0, 1, 2⟩, 1⟩ ⟨.empty, .empty, ⟨[]⟩, ⟨["pwd"], 0, 1⟩⟩
        ⟨"exit", ["300"], []⟩ ⟨final.input, 1, 2⟩ final.process final.machine status ∧
      (execute ⟨fun _ => none, ⟨0, 1, 2⟩, 1⟩ ⟨.empty, .empty, ⟨[]⟩, ⟨["pwd"], 0, 1⟩⟩
        ⟨.empty, [.tape [] 0, .stream .empty, .stream .empty], none, [], 1⟩
        [⟨"cd", ["/"], []⟩, ⟨"none", [], []⟩, ⟨"exit", ["300"], []⟩]).2 =
        (⟨.empty, .empty, ⟨[]⟩, ⟨["pwd"], 0, 1⟩⟩, .ok (.proceed status)) :=
  execute_pipeline (by decide +kernel)

/-- The status is not always the code of the last builtin: `echo` has status one when it writes to a
pipe that its readers have left, but as a process it is killed. -/
theorem not_forall_status_of_last_builtin :
    ¬∀ (host : Host) (shell : Shell) (m : Machine) (first last : Command) (b : Builtin)
      (final : Turn) (opened : Machine) (redirection : Redirection) (status : Int),
      Builtin.ofName? last.program = some b →
      ReachesLast host shell [first, last] ⟨host.process + 1, host.streams.input, m⟩ final →
      Redirection.openAll final.machine shell.directory last.redirects =
        (opened, .ok redirection) →
      (execute host shell m [first, last]).2 = (shell, .ok (.proceed status)) →
      status = (b.run last.operands
        (redirection.apply { host.streams with input := final.input }) shell opened).2.2.code %
          256 := by
  intro hclaim
  let host : Host := ⟨fun _ => none, ⟨0, 1, 2⟩, 1⟩
  let shell : Shell := ⟨.empty, .empty, .root, .empty⟩
  let m : Machine := ⟨⟨[([], ⟨0, .newDirectory⟩), ([.text "f"], ⟨1, .device .abandoned⟩)], 2⟩,
    [.tape [] 0, .stream .empty, .stream .empty], none, [], 1⟩
  have hstatus := hclaim host shell m ⟨"none", [], []⟩ ⟨"echo", ["hi"], [⟨.output, "f", false⟩]⟩
    .echo _ _ _ 141 rfl (.next 1 (.last _ _)) rfl rfl
  revert hstatus
  decide +kernel

end Execution

end LineShell
