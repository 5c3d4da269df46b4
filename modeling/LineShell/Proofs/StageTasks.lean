import LineShell.Proofs.AskedPaths
import LineShell.Proofs.BuiltinOutput

/-!
# The task of a stage

Some builtins only say something, and a program that is a filter only writes what it makes of its
input. Such a stage has a task: what it does is told by the octets that it receives, and by nothing
else of the machine. The task is the same on all machines that look the same to who starts
programs, wherever the streams lead.

## Implementation notes

A builtin whose words are refused reports this and has status one, and a report that is refused is
dropped. So the machine decides what becomes of the words, but not what they are.
-/

namespace LineShell

/-- What a stage without redirects does. -/
inductive Task where
  /-- Says something on its output. -/
  | tells (text : String) (code : Nat)
  /-- Says something on its error stream. -/
  | objects (text : String) (code : Nat)
  /-- Says something on its error stream, and ends in the same way when that is refused. -/
  | reports (text : String) (code : Nat)
  /-- Reads all of its input and writes what it makes of it. -/
  | filters (filter : Filter)

/-- Says something on a channel; when that is refused, the reason is reported, unless nobody reads
the channel. -/
def Machine.answer (m : Machine) (row error : Nat) (text : String) (code : Nat) :
    Machine × Ending :=
  match m.print row text with
  | .ok after => (after, .exited code)
  | .error fault =>
    if fault = .refused .brokenPipe then (m, .killed brokenPipeSignal)
    else m.endWith error (fault.message ++ "\n") (.exited 1)

/-- Carries a task out. -/
def Task.run (task : Task) (streams : Streams) (m : Machine) : Machine × Ending :=
  match task with
  | .tells text code => m.answer streams.output streams.error text code
  | .objects text code => m.answer streams.error streams.error text code
  | .reports text code => m.endWith streams.error text (.exited code)
  | .filters filter =>
    let answer := filter (m.unread streams.input).1
    (m.afterFilter streams answer.1 answer.2.1, .exited answer.2.2)

namespace Builtin

variable {b : Builtin} {operands : List String} {shell : Shell} {streams : Streams} {m : Machine}
  {task : Task} {text : String} {code row : Nat}

/-- A builtin that carries out a task as a process, and also within the shell, which it leaves as it
was, if somebody reads its output. -/
def CarriesOut (b : Builtin) (operands : List String) (shell : Shell) (streams : Streams)
    (m : Machine) (task : Task) : Prop :=
  Execution.runBuiltin b shell operands streams m = task.run streams m ∧
  ((m.channel? streams.output).any (·.isUnread) = false →
    ∃ status, b.run operands streams shell m = ((task.run streams m).1, shell, .proceed status))

theorem carriesOut_of_answer (hcode : code < 256)
    (hrow : row = streams.output ∨ row = streams.error)
    (htask : task.run streams m = m.answer row streams.error text code)
    (h : b.execute operands streams shell m = answer m row text shell code) :
    b.CarriesOut operands shell streams m task := by
  rw [CarriesOut, htask]
  simp only [Execution.runBuiltin, run, h, answer, Machine.answer]
  cases hprint : m.print row text with
  | ok after =>
      have hlow : ((code : Int) % 256).toNat = code := by omega
      exact ⟨by simp only [Flow.code, hlow], fun _ => ⟨code, rfl⟩⟩
  | error fault =>
      by_cases hbroken : fault = .refused .brokenPipe
      · subst hbroken
        obtain ⟨hunread, -⟩ := Machine.print_eq_brokenPipe_iff.mp hprint
        refine ⟨by simp [BuiltinFailure.isUnread], fun hread => ⟨1, ?_⟩⟩
        rcases hrow with rfl | rfl
        · simp [hread] at hunread
        · -- Nobody reads the report either.
          simp only [if_true]
          rw [Machine.printOrSkip_of_isUnread ⟨hunread, by simp⟩]
      · have hread : BuiltinFailure.isUnread (.stream fault) = false := decide_eq_false hbroken
        simp only [hread, Bool.false_eq_true, if_false, if_neg hbroken, Machine.endWith_fst]
        exact ⟨rfl, fun _ => ⟨1, rfl⟩⟩

theorem carriesOut_of_failure {failure : BuiltinFailure} (hread : failure.isUnread = false)
    (h : b.execute operands streams shell m = (m, .error failure)) :
    b.CarriesOut operands shell streams m (.reports (failure.message ++ "\n") 1) := by
  simp only [CarriesOut, Execution.runBuiltin, run, h, hread, Bool.false_eq_true, if_false,
    Task.run, Machine.endWith_fst, true_and]
  exact fun _ => ⟨1, rfl⟩

/-- What options ask for is a task if it is one for all that they may give. -/
theorem exists_task_of_withOptions {p : Machine → Prop} {g : Options.Grammar}
    {go : Options.Given → Streams → Machine → Result}
    (hexecute : ∀ m streams, p m →
      b.execute operands streams shell m =
        withOptions g operands streams shell m fun given => go given streams m)
    (hgiven : ∀ given, g.read operands = .given given → ∃ task, ∀ m, p m → ∀ streams,
      b.execute operands streams shell m = go given streams m →
      b.CarriesOut operands shell streams m task) :
    ∃ task, ∀ m, p m → ∀ streams, b.CarriesOut operands shell streams m task := by
  simp only [withOptions] at hexecute
  cases hread : g.read operands with
  | given given =>
      obtain ⟨task, htask⟩ := hgiven given hread
      refine ⟨task, fun m hm streams => htask m hm streams ?_⟩
      rw [hexecute m streams hm, hread]
  | help text =>
      refine ⟨.tells text 0, fun m hm streams => ?_⟩
      apply carriesOut_of_answer (by decide) (.inl rfl) rfl
      rw [hexecute m streams hm, hread]
      rfl
  | faulty fault =>
      refine ⟨.objects fault.message 2, fun m hm streams => ?_⟩
      apply carriesOut_of_answer (by decide) (.inr rfl) rfl
      rw [hexecute m streams hm, hread]
      rfl

end Builtin

namespace Execution

variable {host : Host} {shell : Shell} {m : Machine} {place : Location} {file : String}
  {command : Command}

/-- `type` says the same on machines that look the same. -/
theorem describeName_congr {x : Machine} (hx : m.LooksLike place x) {name : String}
    (hunseen : Builtin.ofName? name = none →
      ∀ path ∈ Lookup.tried m.volume shell.directory shell.environment name,
        place ∉ m.volume.passed shell.directory path .follow) :
    Builtin.describeName x shell name = Builtin.describeName m shell name := by
  unfold Builtin.describeName
  cases hbuiltin : Builtin.ofName? name with
  | some b => rfl
  | none => rw [hx.find? (hunseen hbuiltin)]

/-- `echo`, `type` and `pwd` have a task. -/
theorem exists_task_of_builtin {b : Builtin} (hbuiltin : Builtin.ofName? command.program = some b)
    (htells : b = .echo ∨ b = .type ∨ b = .pwd)
    (hunseen : ∀ path ∈ command.asked shell m,
      place ∉ m.volume.passed shell.directory path .follow) :
    ∃ task, ∀ x, m.LooksLike place x → ∀ streams,
      b.CarriesOut command.operands shell streams x task := by
  rcases htells with rfl | rfl | rfl
  · refine ⟨.tells (joined " " command.operands ++ "\n") 0, fun x _ streams => ?_⟩
    exact Builtin.carriesOut_of_answer (by decide) (.inl rfl) rfl rfl
  · apply Builtin.exists_task_of_withOptions fun x streams _ => rfl
    intro given hread
    simp only [Command.asked, hbuiltin, hread, List.mem_flatMap, List.mem_filter] at hunseen
    have hlines {x : Machine} (hx : m.LooksLike place x) :
        given.operands.map (Builtin.describeName x shell) =
          given.operands.map (Builtin.describeName m shell) := by
      apply List.map_congr_left
      intro name hname
      apply describeName_congr hx
      intro hnone path hpath
      exact hunseen path ⟨name, ⟨hname, by rw [hnone]; rfl⟩, hpath⟩
    refine ⟨.tells (String.join ((given.operands.map (Builtin.describeName m shell)).map (·.1)))
      (if (given.operands.map (Builtin.describeName m shell)).all (·.2) then 0 else 1), ?_⟩
    intro x hx streams hexecute
    apply Builtin.carriesOut_of_answer (by split <;> decide) (.inl rfl) rfl
    rw [hexecute, Builtin.typeNames, hlines hx]
    split <;> rfl
  · apply Builtin.exists_task_of_withOptions fun x streams _ => rfl
    intro given hread
    cases hpath : m.volume.pathOfDirectory shell.directory with
    | ok path =>
        refine ⟨.tells (Utf8.lossy path ++ "\n") 0, fun x hx streams hexecute => ?_⟩
        apply Builtin.carriesOut_of_answer (by decide) (.inl rfl) rfl
        rw [hexecute, hx.volume.pathOfDirectory, hpath]
        rfl
    | error fault =>
        refine ⟨.reports ((BuiltinFailure.noDirectory "pwd" fault).message ++ "\n") 1,
          fun x hx streams hexecute => ?_⟩
        apply Builtin.carriesOut_of_failure rfl
        rw [hexecute, hx.volume.pathOfDirectory, hpath]

/-- What the loop leaves of a run: an error is reported. -/
def reported (host : Host) (run : Machine × Shell × Except ShellError Flow) : Machine :=
  match run with
  | (m, _, .ok _) => m
  | (m, _, .error e) => m.printOrSkip host.streams.error (errorLine e)

/-- A handler that carries out a task, for a stage and for a command on its own. -/
structure Handler.HasTask (handler : Handler) (host : Host) (shell : Shell) (command : Command)
    (x : Machine) (task : Task) : Prop where
  answers : handler.Answers x.volume shell.directory shell.environment command.program
  stage : ∀ streams process,
    handler.stage host shell command streams process x = task.run streams x
  single : ∀ streams, streams.error = host.streams.error →
    (x.channel? streams.output).any (·.isUnread) = false →
    reported host (handler.single host shell command streams x) = (task.run streams x).1 ∧
    (handler.single host shell command streams x).2.1 = shell

theorem Handler.hasTask_of_carriesOut {x : Machine} {b : Builtin} {task : Task}
    (hbuiltin : Builtin.ofName? command.program = some b)
    (h : ∀ streams, b.CarriesOut command.operands shell streams x task) :
    (Handler.builtin b).HasTask host shell command x task where
  answers := hbuiltin
  stage streams _ := (h streams).1
  single streams _ hread := by
    obtain ⟨status, hrun⟩ := (h streams).2 hread
    simp only [Handler.single, hrun, reported, and_self]

/-- The task of a program that can be started as a filter, or not. -/
def taskOfOutcome (command : Command) : Except Errno Filter → Task
  | .ok filter => .filters filter
  | .error e => .reports (command.program ++ ": " ++ e.processReport ++ "\n") notFound

theorem runProgram_eq_run {x : Machine} {path : String} {streams : Streams} {process : Nat}
    {outcome : Except Errno Filter}
    (h : host.programs.start path (stageCall host shell command streams process) x =
      outcome.map fun filter =>
        Program.ofFunction (fun _ => filter) (stageCall host shell command streams process) x) :
    runProgram host shell command path streams process x =
      (taskOfOutcome command outcome).run streams x := by
  simp only [stageCall] at h
  cases outcome with
  | error e => simp only [runProgram, h, Except.map, taskOfOutcome, Task.run]
  | ok filter =>
      simp only [runProgram, h, Except.map, Program.ofFunction_eq, taskOfOutcome, Task.run]

theorem exists_waitFor_taskOfOutcome (command : Command) (outcome : Except Errno Filter)
    (streams : Streams) (x : Machine) :
    ∃ status : Nat, waitFor ((taskOfOutcome command outcome).run streams x).2 = .ok status := by
  cases outcome with
  | error e => exact exists_waitFor_endWith ..
  | ok filter => exact ⟨_, rfl⟩

/-- Starting a program comes to the same on machines that look the same. -/
theorem exists_outcome_of_start {path : String}
    (hprograms : host.programs.AreFilters ["cat", file])
    (hfile : m.volume.reaches shell.directory file = false)
    (hpath : m.volume.reaches shell.directory path = true)
    (hpassed : place ∉ m.volume.passed shell.directory path .follow)
    (hunseen : ∀ startable, m.openToRun shell.directory path = .ok startable →
      ∀ path ∈ startable.interpreters m shell.directory Programs.deepestInterpreter,
        place ∉ m.volume.passed shell.directory path .follow)
    (hother : command.arguments ≠ ["cat", file]) :
    ∃ outcome : Except Errno Filter, ∀ x, m.LooksLike place x → ∀ streams process,
      host.programs.start path (stageCall host shell command streams process) x =
        outcome.map fun filter =>
          Program.ofFunction (fun _ => filter) (stageCall host shell command streams process)
            x := by
  have hdiffers : path ≠ file := by
    rintro rfl
    simp [hfile] at hpath
  by_cases hlong : Programs.isTooLong (stageCall host shell command host.streams 0) = true
  · refine ⟨.error .tooManyArguments, fun x _ streams process => ?_⟩
    have hlong' : Programs.isTooLong (stageCall host shell command streams process) = true := hlong
    simp only [Programs.start, hlong', if_true, Except.map]
  · have hshort (streams : Streams) (process : Nat) :
        Programs.isTooLong (stageCall host shell command streams process) = false :=
      Bool.eq_false_iff.mpr hlong
    have hsame {x : Machine} (hx : m.LooksLike place x) (streams : Streams) (process : Nat) :
        x.openToRun (stageCall host shell command streams process).directory path =
          m.openToRun shell.directory path :=
      hx.openToRun hpassed
    cases hopens : m.openToRun shell.directory path with
    | error e =>
        refine ⟨.error e, fun x hx streams process => ?_⟩
        simp only [Programs.start, hshort, hsame hx, hopens, Bool.false_eq_true, if_false,
          Except.map]
    | ok startable =>
        obtain ⟨outcome, houtcome⟩ := Programs.exists_outcome hprograms hfile hdiffers hother
          (hunseen startable hopens)
        refine ⟨outcome, fun x hx streams process => ?_⟩
        simp only [Programs.start, hshort, hsame hx, hopens, Bool.false_eq_true, if_false]
        exact houtcome x hx (stageCall host shell command streams process) rfl rfl

/-- A program that is found has a task. -/
theorem exists_task_of_program {path : String}
    (hprograms : host.programs.AreFilters ["cat", file])
    (hfile : m.volume.reaches shell.directory file = false)
    (hbuiltin : Builtin.ofName? command.program = none)
    (hfound : Lookup.find? m.volume shell.directory shell.environment command.program = some path)
    (hunseen : ∀ path ∈ command.asked shell m,
      place ∉ m.volume.passed shell.directory path .follow)
    (hother : command.arguments ≠ ["cat", file]) :
    ∃ task, ∀ x, m.LooksLike place x →
      (Handler.program path).HasTask host shell command x task := by
  simp only [Command.asked, hbuiltin, List.forall_mem_append, hfound] at hunseen
  obtain ⟨htried, hstarted⟩ := hunseen
  have hanswers {x : Machine} (hx : m.LooksLike place x) : (Handler.program path).Answers x.volume
      shell.directory shell.environment command.program :=
    ⟨hbuiltin, (hx.find? htried).trans hfound⟩
  cases hnul : (path :: command.arguments).any hasNul with
  | true =>
      refine ⟨.reports (errorLine (.nulByte command.program)) notFound, fun x hx => ?_⟩
      refine ⟨hanswers hx, fun streams process => ?_, fun streams herror _ => ?_⟩
      · simp only [Handler.stage, hnul, if_true, Task.run]
      · simp only [Handler.single, hnul, if_true, reported, Task.run, Machine.endWith_fst, herror,
          and_self]
  | false =>
      obtain ⟨outcome, houtcome⟩ := exists_outcome_of_start hprograms hfile
        (Lookup.reaches_of_find? hfound) (htried path (Lookup.mem_tried_of_find? hfound))
        (fun startable hopens => by simpa only [hopens] using hstarted) hother
      have hrun {x : Machine} (hx : m.LooksLike place x) (streams : Streams) (process : Nat) :
          runProgram host shell command path streams process x =
            (taskOfOutcome command outcome).run streams x :=
        runProgram_eq_run (houtcome x hx streams process)
      refine ⟨taskOfOutcome command outcome, fun x hx => ?_⟩
      refine ⟨hanswers hx, fun streams process => ?_, fun streams herror _ => ?_⟩
      · simp only [Handler.stage, hnul, Bool.false_eq_true, if_false, hrun hx]
      · simp only [Handler.single, hnul, Bool.false_eq_true, if_false, hrun hx]
        obtain ⟨status, hstatus⟩ := exists_waitFor_taskOfOutcome command outcome streams x
        simp only [hstatus, Except.map, reported, and_self]

end Execution

/-- A stage that is `echo`, `type`, `pwd` or a program that is found, and does not see a place. -/
structure Command.IsPlain (command : Command) (shell : Shell) (m : Machine) (place : Location)
    (file : String) : Prop where
  redirects : command.redirects = []
  known : ∃ handler : Execution.Handler,
    handler.Answers m.volume shell.directory shell.environment command.program ∧
    ∀ b, handler = .builtin b → b = .echo ∨ b = .type ∨ b = .pwd
  unseen : ∀ path ∈ command.asked shell m, place ∉ m.volume.passed shell.directory path .follow
  other : command.arguments ≠ ["cat", file]

/-- A plain stage has a task. -/
theorem Command.IsPlain.exists_task {host : Host} {shell : Shell} {m : Machine} {place : Location}
    {file : String} {command : Command} (h : command.IsPlain shell m place file)
    (hprograms : host.programs.AreFilters ["cat", file])
    (hfile : m.volume.reaches shell.directory file = false) :
    ∃ handler task, ∀ x, m.LooksLike place x →
      Execution.Handler.HasTask handler host shell command x task := by
  obtain ⟨handler, hanswers, htells⟩ := h.known
  cases handler with
  | builtin b =>
      obtain ⟨task, htask⟩ :=
        Execution.exists_task_of_builtin hanswers (htells b rfl) h.unseen
      exact ⟨.builtin b, task, fun x hx =>
        Execution.Handler.hasTask_of_carriesOut hanswers (htask x hx)⟩
  | program path =>
      obtain ⟨hbuiltin, hfound⟩ := hanswers
      obtain ⟨task, htask⟩ :=
        Execution.exists_task_of_program hprograms hfile hbuiltin hfound h.unseen h.other
      exact ⟨.program path, task, htask⟩

end LineShell
