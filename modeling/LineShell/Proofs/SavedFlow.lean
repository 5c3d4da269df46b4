import LineShell.Proofs.PipelineFlow

/-!
# A flow that is saved

The last command of a pipeline may be redirected to a new file. Then the file holds what the command
would have sent on, and apart from the file the machine is the one on which the next task would
have found it.

## Implementation notes

A command on its own runs on the shell itself, which reports the errors that a stage reports
otherwise. So the two are compared after the loop has reported the error of a run, if there is one.
-/

namespace LineShell

theorem Machine.write_closeFrom {row rows : Nat} (hrow : row < rows) (x : Machine)
    (written : Bytes) :
    (x.closeFrom rows).write row written = (x.write row written).map (·.closeFrom rows) := by
  have hcontents (place : Location) (serial : Nat) :
      (x.closeFrom rows).contentsOf place serial = x.contentsOf place serial := rfl
  simp only [write, channel?_closeFrom hrow]
  split
  any_goals rfl
  split
  · rfl
  · split
    any_goals rfl
    · split
      · rfl
      · simp only [Except.map, closeFrom_setChannel]
    · simp only [hcontents]
      split
      · simp only [Except.map, ← closeFrom_setChannel]
        rfl
      · rfl

/-- Sends the output of a command to a file. -/
def Command.sendingTo (command : Command) (file : String) (append : Bool) : Command :=
  { command with redirects := [⟨.output, file, append⟩] }

namespace Execution

variable {host : Host} {shell : Shell} {m x : Machine} {place : Location} {held : Option Bytes}
  {file : String} {command : Command} {turn final : Turn} {task : Task} {state : Bytes × Machine}
  {append : Bool}

/-- A machine on which the new file was created and opened. -/
def opening (x : Machine) (place : Location) (append : Bool) : Machine :=
  ({ x with volume := x.volume.create place (.file [] .ofNewFile) }.addChannel
    (.file place x.volume.free (if append then .appending else .writing) 0)).1

theorem openAll_eq_opening (hfresh : m.FreshAt shell.directory file place)
    (h : m.Continues place none x) (command : Command) (append : Bool) :
    Redirection.openAll x shell.directory (command.sendingTo file append).redirects =
      (opening x place append, .ok ⟨some x.channels.length, none⟩) := by
  have hvacant : x.volume.locate shell.directory file .create = .ok (.vacant place false) :=
    (h.looksLike hfresh).volume.locate_vacant h.own hfresh.vacant
  have hallowed := (h.looksLike hfresh).volume.mayChangeAt hfresh.allowed
  simp [Redirection.openAll, Redirection.openFrom, Command.sendingTo, Machine.openFile,
    Volume.openForWriting, hvacant, hallowed, Redirection.closeSuperseded, Redirection.superseded,
    Redirection.send, Redirection.none, Machine.addChannel, opening]

theorem apart_opening (h : m.Continues place none x) (append : Bool) :
    (opening x place append).apart m.channels.length place =
      x.apart m.channels.length place := by
  refine (Machine.apart_addChannel
    (x := { x with volume := x.volume.create place (.file [] .ofNewFile) }) h.length_le _).trans ?_
  simp only [Machine.apart, Volume.apart_create]

/-- The new file is still open, and empty, when the input is read. -/
theorem channel?_taken_opening (h : turn.Stands m place none task state) (append : Bool) :
    (task.taken turn.input (opening turn.machine place append)).channel?
        turn.machine.channels.length =
      some (.file place m.volume.free (if append then .appending else .writing) 0) := by
  have hkeeps := Task.keepsRow_taken (Nat.ne_of_gt h.input_lt) task
    (opening turn.machine place append)
  rw [hkeeps.channel?_eq (by simp [opening, Machine.addChannel])]
  simp [opening, Machine.addChannel, Machine.channel?, h.continues.free rfl]

/-- A task whose output goes to the new file takes its step, and the file holds what it sends. -/
theorem Turn.Stands.save (hfresh : m.FreshAt shell.directory file place)
    (herror : host.streams.error < m.channels.length) (h : turn.Stands m place none task state)
    (append : Bool) :
    let streams : Streams := ⟨turn.input, turn.machine.channels.length, host.streams.error⟩
    let left := (task.run streams (opening turn.machine place append)).1
    m.Continues place (some (task.sent state.1)) left ∧
      left.apart m.channels.length place = (task.step host.streams.error state).2 := by
  intro streams left
  have hopened : m.Continues place (some []) (opening turn.machine place append) :=
    h.continues.create _
  have hkeeps : Machine.KeepsRow turn.input turn.machine (opening turn.machine place append) := by
    have hadded := Machine.keepsRow_addChannel turn.input
      { turn.machine with volume := turn.machine.volume.create place (.file [] .ofNewFile) }
    exact ⟨(hadded _).length_le, (hadded _).channel?_eq⟩
  have hsame := apart_opening h.continues append
  have hreceived := h.unread_eq hfresh hopened hkeeps hsame
  have htaken := Task.continues_taken hopened task turn.input
  obtain ⟨after, hwrite, hafter⟩ := htaken.exists_write_new (by split <;> simp)
    (channel?_taken_opening h append) (task.sent state.1)
  have hleft : left = (task.pass host.streams.error state.1 after).1 := by
    simp only [left, Task.run_eq_finish, streams]
    rw [hreceived, Task.finish_of_write hwrite]
  have hapart : after.apart m.channels.length place = state.2 := by
    rw [Machine.apart_of_write htaken h.continues.length_le hwrite,
      Task.taken_apart_congr hfresh h.continues hopened hsame, h.apart]
  rw [hleft]
  refine ⟨Task.continues_pass hfresh hafter herror task state.1, ?_⟩
  rw [Task.step, ← hapart, Task.pass_apart hfresh hafter herror]
  rfl

/-- A handler that has a task on every machine that looks as one does. -/
def Handler.Does (handler : Handler) (host : Host) (shell : Shell) (m : Machine)
    (place : Location) (command : Command) (task : Task) : Prop :=
  ∀ x, m.LooksLike place x → handler.HasTask host shell command x task

theorem Handler.Does.stage {handler : Handler}
    (h : handler.Does host shell m place command task) (hredirects : command.redirects = []) :
    Execution.Does host shell m place command task := by
  intro x hx streams process
  have hopen : Redirection.openAll x shell.directory command.redirects = (x, .ok .none) := by
    rw [hredirects]
    rfl
  rw [stage_eq_handler hopen (h x hx).answers]
  exact (h x hx).stage streams process

section SendingTo

variable {handler : Handler} (hfresh : m.FreshAt shell.directory file place)
  (hdoes : handler.Does host shell m place command task)
include hfresh hdoes

/-- A stage that is redirected carries out its task on the machine with the new file. -/
theorem stage_sendingTo (h : m.Continues place none x) (append : Bool) (streams : Streams)
    (process : Nat) :
    stage host shell (command.sendingTo file append) streams process x =
      task.run { streams with output := x.channels.length } (opening x place append) := by
  have hlook := (h.create (if append then .appending else .writing)).looksLike hfresh
  have htask := hdoes (opening x place append) hlook
  rw [stage_eq_handler (openAll_eq_opening hfresh h command append) htask.answers]
  exact htask.stage _ process

/-- A redirected command on its own does so too, when its error is reported. -/
theorem reported_single_sendingTo (h : m.Continues place none x) (append : Bool) :
    reported host (single host shell x (command.sendingTo file append)) =
      (task.run { host.streams with output := x.channels.length } (opening x place append)).1 ∧
    (single host shell x (command.sendingTo file append)).2.1 = shell := by
  have hlook := (h.create (if append then .appending else .writing)).looksLike hfresh
  have htask := hdoes (opening x place append) hlook
  rw [single_eq_handler (openAll_eq_opening hfresh h command append) htask.answers]
  -- The output is the new file, which takes whatever is written.
  refine htask.single { host.streams with output := x.channels.length } rfl ?_
  simp [opening, Machine.addChannel, Machine.channel?, Channel.isUnread]

end SendingTo

/-- Where a flow begins. -/
def flowStart (m : Machine) (place : Location) (input : Nat) (task : Task) : Bytes × Machine :=
  ((m.unread input).1, (task.taken input m).apart m.channels.length place)

theorem stands_flowStart (hfresh : m.FreshAt shell.directory file place) {input : Nat}
    (hinput : input < m.channels.length) (process : Nat) (task : Task) :
    Turn.Stands ⟨process, input, m⟩ m place none task (flowStart m place input task) :=
  ⟨.refl hfresh, .inl ⟨hinput, rfl⟩, rfl⟩

/-- What the loop reports, it reports on a row that was there before. -/
theorem reported_closeFrom {rows : Nat} (herror : host.streams.error < rows)
    (run : Machine × Shell × Except ShellError Flow) :
    reported host (run.1.closeFrom rows, run.2) = (reported host run).closeFrom rows := by
  obtain ⟨x, shell, result⟩ := run
  cases result with
  | ok flow => rfl
  | error e =>
      simp only [reported, Machine.printOrSkip, Machine.print, Machine.write_closeFrom herror]
      cases x.write host.streams.error (octets (errorLine e)) <;> rfl

/-- The first run leaves the new file with what the last of its tasks sends, and apart from it what
the flow has come to. -/
theorem saved_of_execute (hfresh : m.FreshAt shell.directory file place)
    (hexits : host.programs.Exit) (hinput : host.streams.input < m.channels.length)
    (herror : host.streams.error < m.channels.length) {before : List Command} {tasks : List Task}
    (hbefore : List.Forall₂ (Does host shell m place) before tasks) {handler : Handler}
    (hdoes : handler.Does host shell m place command task) {first : Task}
    (hfirst : (tasks ++ [task]).head? = some first) (append : Bool) :
    let run := execute host shell m (before ++ [command.sendingTo file append])
    let last := (tasks ++ [task]).foldl (Task.step host.streams.error)
      (flowStart m place host.streams.input first)
    run.2.1 = shell ∧ m.Continues place (some last.1) (reported host run) ∧
      (reported host run).apart m.channels.length place = last.2 ∧
      (reported host run).channels.length = m.channels.length := by
  intro run last
  have hlast : last = task.step host.streams.error (tasks.foldl (Task.step host.streams.error)
      (flowStart m place host.streams.input first)) := List.foldl_concat ..
  have hstart (process : Nat) := stands_flowStart hfresh hinput process first
  have hreached {final : Turn} (hreaches : ReachesLast host shell
      (before ++ [command.sendingTo file append]) ⟨host.process + 1, host.streams.input, m⟩ final) :
      final.Stands m place none task (tasks.foldl (Task.step host.streams.error)
        (flowStart m place host.streams.input first)) := by
    apply stands_of_reachesLast hfresh herror hbefore hreaches
    intro other hother
    obtain rfl : first = other := Option.some.inj (hfirst.symm.trans hother)
    exact hstart _
  -- Both a command on its own and a last stage leave what the task leaves on the new file.
  obtain ⟨left, hleft, hclosed, hshell⟩ : ∃ left : Machine,
      (m.Continues place (some last.1) left ∧ left.apart m.channels.length place = last.2) ∧
      reported host run = left.closeFrom m.channels.length ∧ run.2.1 = shell := by
    by_cases halone : before = []
    · subst halone
      cases hbefore
      obtain rfl : task = first := Option.some.inj hfirst
      obtain ⟨hreported, hkept⟩ :=
        reported_single_sendingTo hfresh hdoes (.refl hfresh) append
      refine ⟨_, (hstart 0).save hfresh herror append, ?_, hkept⟩
      rw [← hreported]
      exact reported_closeFrom herror _
    · obtain ⟨final, left, ending, after, code, hreaches, hstage, -, hsame, hexecute⟩ :=
        exists_last_of_execute hexits shell halone (command.sendingTo file append) m
      have hstands := hreached hreaches
      rw [stage_sendingTo hfresh hdoes hstands.continues] at hstage
      have hrun : (task.run ⟨final.input, final.machine.channels.length, host.streams.error⟩
          (opening final.machine place append)).1 = left := congrArg Prod.fst hstage
      have hsaved := hstands.save hfresh herror append
      simp only [hrun] at hsaved
      refine ⟨after, ⟨?_, ?_⟩, congrArg (reported host) hexecute, congrArg (·.2.1) hexecute⟩
      · rw [hlast]
        exact hsaved.1.of_forgetEnds hsame
      · rw [hlast, ← hsaved.2, ← Machine.apart_forgetEnds, hsame, Machine.apart_forgetEnds]
  obtain ⟨hcontinues, hapart⟩ := hleft
  rw [hclosed]
  refine ⟨hshell, hcontinues.closeFrom (Nat.le_refl _), ?_, ?_⟩
  · rw [Machine.apart_closeFrom (Nat.le_refl _), hapart]
  · simp [Machine.closeFrom, hcontinues.length_le]

end Execution

end LineShell
