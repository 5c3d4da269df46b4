import LineShell.Proofs.PipelineIsolation

/-!
# A builtin alone and at the end of a pipeline

The last stage of a pipeline has the streams of the shell but for its input, and no builtin reads
its input. So a builtin leaves the same machine behind as when it runs alone: the same octets in the
same files and on the streams of the shell. If a redirect cannot be opened, the redirects before it
have been opened in either case, and that is all.
-/

namespace LineShell

namespace Redirection

variable {r : Redirection} {m opened : Machine} {cwd : WorkingDirectory}
  {redirects : List Redirect} {e : ShellError}

/-- Opening goes as far as the first redirect that is refused, and the error names this one. -/
theorem refused_of_openFrom (hopen : r.openFrom m cwd redirects = (opened, .error e)) :
    ∃ before redirect rest inForce fault,
      redirects = before ++ redirect :: rest ∧
      r.openFrom m cwd before = (opened, .ok inForce) ∧
      opened.openFile cwd redirect.path redirect.append = .error fault ∧
      e = .redirectOpen redirect.path fault := by
  induction redirects generalizing r m with
  | nil => simp [openFrom] at hopen
  | cons redirect rest ih =>
      simp only [openFrom] at hopen
      split at hopen
      case h_1 fault hfault =>
        simp only [Prod.mk.injEq, Except.error.injEq] at hopen
        obtain ⟨rfl, rfl⟩ := hopen
        exact ⟨[], redirect, rest, r, fault, rfl, rfl, hfault, rfl⟩
      case h_2 next row hnext =>
        obtain ⟨before, refused, after, inForce, fault, rfl, hbefore, hfault, he⟩ := ih hopen
        refine ⟨redirect :: before, refused, after, inForce, fault, rfl, ?_, hfault, he⟩
        simp only [openFrom, hnext, hbefore]

end Redirection

namespace Builtin

/-- No builtin reads its input. -/
theorem execute_input (b : Builtin) (operands : List String) (streams : Streams) (input : Nat)
    (shell : Shell) (m : Machine) :
    b.execute operands { streams with input := input } shell m =
      b.execute operands streams shell m := by
  cases b <;> rfl

end Builtin

namespace Execution

variable {host : Host} {shell : Shell} {m : Machine} {command : Command} {b : Builtin}

/-- What a stage leaves, and how it ends, when it agrees with the same builtin alone as far as the
two can. -/
structure AgreesWithSingle (host : Host) (shell : Shell) (m : Machine) (command : Command)
    (b : Builtin) (left : Machine) (ending : Ending) : Prop where
  /-- The machine is the same, and the status is the low eight bits of the code. -/
  opened : ∀ opened redirection,
    Redirection.openAll m shell.directory command.redirects = (opened, .ok redirection) →
    ¬b.IsUnread command.operands (redirection.apply host.streams) shell opened →
    ∃ changed flow, single host shell m command = (left, changed, .ok flow) ∧
      ending = .exited (flow.code % 256).toNat
  /-- When nobody reads what is written, the builtin alone reports this and has status one; the
  stage is ended by the signal and reports nothing. -/
  unread : ∀ opened redirection,
    Redirection.openAll m shell.directory command.redirects = (opened, .ok redirection) →
    b.IsUnread command.operands (redirection.apply host.streams) shell opened →
    ending = .killed brokenPipeSignal ∧
    ∃ failure : BuiltinFailure, single host shell m command =
      (left.printOrSkip (redirection.apply host.streams).error (failure.message ++ "\n"), shell,
        .ok (.proceed 1))
  /-- All that happens is that the redirects before the refused one are opened; but the stage
  reports the error itself, and the signal ends it when nobody reads this. -/
  refused : ∀ opened e,
    Redirection.openAll m shell.directory command.redirects = (opened, .error e) →
    single host shell m command = (opened, shell, .error e) ∧
      left = opened.printOrSkip host.streams.error ("minish: " ++ e.message ++ "\n") ∧
      ending = (if opened.IsUnread host.streams.error ("minish: " ++ e.message ++ "\n") then
        .killed brokenPipeSignal else .exited 1) ∧
      ∃ before redirect rest inForce fault,
        command.redirects = before ++ redirect :: rest ∧
        Redirection.openAll m shell.directory before = (opened, .ok inForce) ∧
        opened.openFile shell.directory redirect.path redirect.append = .error fault ∧
        e = .redirectOpen redirect.path fault

theorem runBuiltin_input (b : Builtin) (shell : Shell) (operands : List String)
    (streams : Streams) (input : Nat) (m : Machine) :
    runBuiltin b shell operands { streams with input := input } m =
      runBuiltin b shell operands streams m := by
  simp only [runBuiltin, b.execute_input operands streams input shell m]

theorem agreesWithSingle_stage (hbuiltin : Builtin.ofName? command.program = some b)
    (host : Host) (shell : Shell) (m : Machine) (input process : Nat) :
    AgreesWithSingle host shell m command b
      (stage host shell command { host.streams with input := input } process m).1
      (stage host shell command { host.streams with input := input } process m).2 := by
  have hstage {opened : Machine} {redirection : Redirection}
      (hopen : Redirection.openAll m shell.directory command.redirects =
        (opened, .ok redirection)) :
      stage host shell command { host.streams with input := input } process m =
        runBuiltin b shell command.operands (redirection.apply host.streams) opened := by
    simp only [stage, hopen, hbuiltin]
    exact runBuiltin_input b shell command.operands (redirection.apply host.streams) input opened
  constructor
  case opened =>
    intro opened redirection hopen hread
    rw [hstage hopen, Builtin.runBuiltin_of_not_isUnread hread]
    simp only [single, hopen, hbuiltin]
    exact ⟨_, _, rfl, rfl⟩
  case unread =>
    intro opened redirection hopen hunread
    obtain ⟨after, failure, hkilled, hrun⟩ := Builtin.exists_failure_of_isUnread hunread
    rw [hstage hopen, hkilled]
    refine ⟨rfl, failure, ?_⟩
    simp only [single, hopen, hbuiltin, hrun]
  case refused =>
    intro opened e hopen
    have hsingle : single host shell m command = (opened, shell, .error e) := by
      simp only [single, hopen]
    have hstage : stage host shell command { host.streams with input := input } process m =
        opened.endWith host.streams.error (errorLine e) (.exited 1) := by
      simp only [stage, hopen]
    rw [hstage]
    refine ⟨hsingle, Machine.endWith_fst .., ?_, Redirection.refused_of_openFrom hopen⟩
    split
    · next hunread => exact congrArg Prod.snd (Machine.endWith_of_isUnread hunread _)
    · next hread => exact congrArg Prod.snd (Machine.endWith_of_not_isUnread hread _)

/-- A builtin as the last stage of a pipeline agrees with the same builtin alone, unless nobody
reads what it writes: on whatever machine it runs, and so in particular on the one to which the
stages before it lead. What the whole pipeline leaves is what this stage leaves, and its last ending
is that of this stage. -/
theorem single_agrees_with_last_stage (hbuiltin : Builtin.ofName? command.program = some b)
    (host : Host) (shell : Shell) :
    (∀ m input process, AgreesWithSingle host shell m command b
      (stage host shell command { host.streams with input := input } process m).1
      (stage host shell command { host.streams with input := input } process m).2) ∧
    ∀ before m input process, ∃ final left ending,
      ReachesLast host shell (before ++ [command]) ⟨process, input, m⟩ final ∧
      AgreesWithSingle host shell final.machine command b left ending ∧
      (stages host shell process input (before ++ [command]) m).1.forgetEnds = left.forgetEnds ∧
      (stages host shell process input (before ++ [command]) m).2.getLast? = some ending := by
  refine ⟨agreesWithSingle_stage hbuiltin host shell, ?_⟩
  intro before m input process
  have hne : before ++ [command] ≠ [] := by simp
  have hcommand : (before ++ [command]).getLast hne = command := by simp
  obtain ⟨final, last, hreaches, hstage, hmachine, hlast⟩ :=
    exists_last_stage host shell hne process input m
  have hagrees : AgreesWithSingle host shell final.machine command b last.1 last.2 := by
    rw [← hstage, hcommand]
    exact agreesWithSingle_stage hbuiltin host shell final.machine final.input final.process
  exact ⟨final, last.1, last.2, hreaches, hagrees, hmachine, hlast⟩

/-- A host without programs. -/
def onlyBuiltins : Host := ⟨fun _ => none, ⟨0, 1, 2⟩, 1⟩

/-- A shell that has just been started. -/
def startedShell : Shell := ⟨.empty, .empty, .root, .empty⟩

/-- A machine on which nothing has been said yet. -/
def silent : Machine := ⟨.empty, [.tape [] 0, .stream .empty, .stream .empty], none, [], 1⟩

/-- Ends with a code of more than eight bits. -/
def exitFar : Command := ⟨"exit", ["300"], [⟨.error, "log", false⟩]⟩

/-- Has a redirect that leads to a directory, behind one that can be opened. -/
def exitNowhere : Command := ⟨"exit", [], [⟨.output, "log", false⟩, ⟨.output, "/", false⟩]⟩

theorem single_agrees_with_last_stage_of_exit :
    (∃ after changed,
      single onlyBuiltins startedShell silent exitFar = (after, changed, .ok (.exit 300)) ∧
      stage onlyBuiltins startedShell exitFar { onlyBuiltins.streams with input := 3 } 7 silent =
        (after, .exited 44)) ∧
    ∃ opened,
      single onlyBuiltins startedShell silent exitNowhere =
        (opened, startedShell, .error (.redirectOpen "/" (.refused .isDirectory))) ∧
      stage onlyBuiltins startedShell exitNowhere { onlyBuiltins.streams with input := 3 } 7
        silent =
          (opened.printOrSkip 2 "minish: /: Is a directory (os error 21)\n", .exited 1) := by
  have hfar : Builtin.ofName? exitFar.program = some .exit := rfl
  have hnowhere : Builtin.ofName? exitNowhere.program = some .exit := rfl
  constructor
  · have hagrees := (single_agrees_with_last_stage hfar onlyBuiltins startedShell).1 silent 3 7
    obtain ⟨changed, flow, hsingle, hending⟩ := hagrees.opened _ _ rfl
      (Builtin.not_isUnread_of_execute rfl)
    have hflow : (single onlyBuiltins startedShell silent exitFar).2.2 = .ok (.exit 300) := rfl
    rw [hsingle] at hflow
    obtain rfl := Except.ok.inj hflow
    exact ⟨_, changed, hsingle, Prod.ext rfl hending⟩
  · have hagrees :=
      (single_agrees_with_last_stage hnowhere onlyBuiltins startedShell).1 silent 3 7
    obtain ⟨hsingle, hleft, hending, -⟩ := hagrees.refused _ _ rfl
    exact ⟨_, hsingle, Prod.ext hleft hending⟩

/-- A machine with a named pipe that its readers have left. -/
def deserted : Machine :=
  { silent with volume := silent.volume.create [.text "f"] (.device .abandoned) }

/-- Says something that nobody reads. -/
def echoUnread : Command := ⟨"echo", ["hi"], [⟨.output, "f", false⟩]⟩

/-- A builtin alone and as a stage do not agree when nobody reads what it writes: alone it reports
this, as a stage it is killed. -/
theorem not_forall_single_agrees_with_last_stage :
    ¬∀ (host : Host) (shell : Shell) (m : Machine) (command : Command) (b : Builtin)
      (input process : Nat) (opened : Machine) (redirection : Redirection),
      Builtin.ofName? command.program = some b →
      Redirection.openAll m shell.directory command.redirects = (opened, .ok redirection) →
      ∃ changed flow,
        single host shell m command =
          ((stage host shell command { host.streams with input := input } process m).1, changed,
            .ok flow) ∧
        waitFor (stage host shell command { host.streams with input := input } process m).2 =
          .ok (flow.code % 256) := by
  intro hclaim
  obtain ⟨changed, flow, hsingle, hstatus⟩ :=
    hclaim onlyBuiltins startedShell deserted echoUnread .echo 0 7 _ _ rfl rfl
  have hflow : (single onlyBuiltins startedShell deserted echoUnread).2.2 = .ok (.proceed 1) := rfl
  rw [hsingle] at hflow
  obtain rfl := Except.ok.inj hflow
  have hkilled : waitFor (stage onlyBuiltins startedShell echoUnread
      { onlyBuiltins.streams with input := 0 } 7 deserted).2 = .ok 141 := rfl
  rw [hkilled] at hstatus
  exact absurd (Except.ok.inj hstatus) (by decide)

end Execution

end LineShell
