import Mathlib.Data.List.Forall2
import LineShell.Proofs.ApartFromFile
import LineShell.Proofs.PipelineWiring
import LineShell.Proofs.StageTasks

/-!
# The flow of a pipeline

A pipeline whose stages have tasks is a flow: what the first stage receives goes from task to task,
and on the way each of them may write to the error stream. Where the stages have their pipes and
which other files there are makes no difference for the flow.

## Implementation notes

A task that has read its input takes a step from what it receives to what it sends, and leaves a
machine. These steps are taken on `Machine.apart`. `Execution.Turn.Stands` ties a turn of the
pipeline to a state of the flow, and a stage leads from there to the next one.
-/

namespace LineShell

theorem Machine.writeOrSkip_nil (x : Machine) (row : Nat) : x.writeOrSkip row [] = x := by
  simp only [writeOrSkip, write]
  split
  case h_1 after hwrite =>
    split at hwrite
    any_goals simp at hwrite
    exact hwrite.symm
  case h_2 => rfl

namespace Task

/-- Whether a task reads its input. -/
def reads : Task → Bool
  | .filters _ => true
  | _ => false

/-- What a task sends to its output for what it receives. -/
def sent : Task → Bytes → Bytes
  | .tells text _, _ => octets text
  | .objects _ _, _ | .reports _ _, _ => []
  | .filters filter, received => (filter received).1

/-- What a task leaves, and how it ends, when its input is read and its output is taken. -/
def pass (task : Task) (error : Nat) (received : Bytes) (m : Machine) : Machine × Ending :=
  match task with
  | .tells _ code => (m, .exited code)
  | .objects text code => m.answer error error text code
  | .reports text code => m.endWith error text (.exited code)
  | .filters filter =>
    (m.writeOrSkip error (filter received).2.1, .exited (filter received).2.2)

/-- What a task leaves, and how it ends, when its input is read. -/
def finish (task : Task) (output error : Nat) (received : Bytes) (m : Machine) :
    Machine × Ending :=
  match task with
  | .tells text code => m.answer output error text code
  | task => task.pass error received (m.writeOrSkip output (task.sent received))

/-- A machine whose input is read, if the task reads it. -/
def taken (task : Task) (input : Nat) (m : Machine) : Machine :=
  if task.reads then (m.takeAll input).1 else m

/-- The step of a flow: what comes to the next task, and the machine that it finds. -/
def step (error : Nat) (state : Bytes × Machine) (task : Task) : Bytes × Machine :=
  (task.sent state.1, (task.pass error state.1 state.2).1)

variable {task : Task} {streams : Streams} {m x after : Machine} {received : Bytes}
  {output error : Nat}

theorem run_eq_finish (task : Task) (streams : Streams) (x : Machine) :
    task.run streams x =
      task.finish streams.output streams.error (x.unread streams.input).1
        (task.taken streams.input x) := by
  cases task with
  | tells text code => rfl
  | objects | reports => simp [run, finish, taken, reads, sent, pass, Machine.writeOrSkip_nil]
  | filters filter => rfl

/-- Nothing goes wrong when the output is taken. -/
theorem finish_of_write (hwrite : x.write output (task.sent received) = .ok after) :
    task.finish output error received x = task.pass error received after := by
  cases task with
  | tells text code =>
      have hprint : x.print output text = .ok after := hwrite
      simp only [finish, pass, Machine.answer, hprint]
  | objects | reports | filters => simp only [finish, Machine.writeOrSkip, hwrite]

section Apart

variable {cwd : WorkingDirectory} {file : String} {place : Location} {held : Option Bytes}
  {row : Nat} (hfresh : m.FreshAt cwd file place) (h : m.Continues place held x)
include hfresh h

theorem endWith_apart (hrow : row < m.channels.length) (text : String) (ending : Ending) :
    (x.apart m.channels.length place).endWith row text ending =
      (x.endWith row text ending).map (·.apart m.channels.length place) id := by
  simp only [Machine.endWith, Machine.print, Machine.write_apart hfresh h hrow]
  cases x.write row (octets text) <;> rfl

theorem answer_apart (hrow : row < m.channels.length) (herror : error < m.channels.length)
    (text : String) (code : Nat) :
    (x.apart m.channels.length place).answer row error text code =
      (x.answer row error text code).map (·.apart m.channels.length place) id := by
  simp only [Machine.answer, Machine.print, Machine.write_apart hfresh h hrow]
  cases x.write row (octets text) with
  | ok after => rfl
  | error fault =>
      simp only [Except.map]
      split
      · rfl
      · exact endWith_apart hfresh h herror ..

theorem continues_answer (hrow : row < m.channels.length) (herror : error < m.channels.length)
    (text : String) (code : Nat) :
    m.Continues place held (x.answer row error text code).1 := by
  simp only [Machine.answer]
  split
  case h_1 after hprint => exact h.write (h.opened?_ne hfresh hrow) hprint
  case h_2 =>
    split
    · exact h
    · rw [Machine.endWith_fst]
      exact h.writeOrSkip (h.opened?_ne hfresh herror) (octets _)

theorem pass_apart (herror : error < m.channels.length) (task : Task) (received : Bytes) :
    task.pass error received (x.apart m.channels.length place) =
      (task.pass error received x).map (·.apart m.channels.length place) id := by
  cases task with
  | tells text code => rfl
  | objects text code => exact answer_apart hfresh h herror herror text code
  | reports text code => exact endWith_apart hfresh h herror ..
  | filters filter => exact Prod.ext (Machine.writeOrSkip_apart hfresh h herror _).symm rfl

theorem continues_pass (herror : error < m.channels.length) (task : Task) (received : Bytes) :
    m.Continues place held (task.pass error received x).1 := by
  cases task with
  | tells text code => exact h
  | objects text code => exact continues_answer hfresh h herror herror text code
  | reports text code =>
      simp only [pass, Machine.endWith_fst]
      exact h.writeOrSkip (h.opened?_ne hfresh herror) (octets text)
  | filters filter => exact h.writeOrSkip (h.opened?_ne hfresh herror) _

/-- The last task of a flow writes to rows that were there before. -/
theorem finish_apart (houtput : output < m.channels.length) (herror : error < m.channels.length)
    (task : Task) (received : Bytes) :
    task.finish output error received (x.apart m.channels.length place) =
      (task.finish output error received x).map (·.apart m.channels.length place) id := by
  have hwritten := h.writeOrSkip (h.opened?_ne hfresh houtput) (task.sent received)
  cases task with
  | tells text code => exact answer_apart hfresh h houtput herror text code
  | objects | reports | filters =>
      simp only [finish, ← Machine.writeOrSkip_apart hfresh h houtput]
      exact pass_apart hfresh hwritten herror _ received

omit hfresh h in
theorem taken_apart_of_le {rows input : Nat} (hinput : rows ≤ input) (task : Task) (x : Machine) :
    (task.taken input x).apart rows place = x.apart rows place := by
  simp only [taken]
  split
  · exact Machine.takeAll_apart_of_le hinput x
  · rfl

omit hfresh in
theorem continues_taken (task : Task) (input : Nat) :
    m.Continues place held (task.taken input x) := by
  simp only [taken]
  split
  · exact h.takeAll input
  · exact h

/-- Reading comes to the same on machines that are the same apart. -/
theorem taken_apart_congr {y : Machine} {other : Option Bytes} (hy : m.Continues place other y)
    (hsame : y.apart m.channels.length place = x.apart m.channels.length place) (task : Task)
    (input : Nat) :
    (task.taken input y).apart m.channels.length place =
      (task.taken input x).apart m.channels.length place := by
  simp only [taken]
  split
  · rcases Nat.lt_or_ge input m.channels.length with hlt | hle
    · rw [Machine.takeAll_apart hfresh hy hlt, Machine.takeAll_apart hfresh h hlt, hsame]
    · rw [Machine.takeAll_apart_of_le hle, Machine.takeAll_apart_of_le hle, hsame]
  · exact hsame

end Apart

/-- A task writes to its output and to its error stream only. -/
theorem keepsRow_pass {row : Nat} (hne : row ≠ error) (task : Task) (received : Bytes)
    (x : Machine) : Machine.KeepsRow row x (task.pass error received x).1 := by
  cases task with
  | tells text code => exact .refl row x
  | objects text code =>
      simp only [pass, Machine.answer]
      split
      case h_1 after hprint => exact Machine.keepsRow_write hne hprint
      case h_2 =>
        split
        · exact .refl row x
        · rw [Machine.endWith_fst]
          exact Machine.keepsRow_writeOrSkip hne (octets _)
  | reports text code =>
      simp only [pass, Machine.endWith_fst]
      exact Machine.keepsRow_writeOrSkip hne (octets text)
  | filters filter => exact Machine.keepsRow_writeOrSkip hne _

theorem keepsRow_taken {row input : Nat} (hne : row ≠ input) (task : Task) (x : Machine) :
    Machine.KeepsRow row x (task.taken input x) := by
  simp only [taken]
  split
  · exact Machine.keepsRow_takeAll hne
  · exact .refl row x

end Task

namespace Programs

variable {programs : Programs} {path : String} {call : Call} {m : Machine}
  {left : Machine × Ending}

theorem Exit.exists_code_of_startWithin {depth : Nat} {startable : Startable}
    (hexits : programs.Exit)
    (hstart : programs.startWithin depth startable path call m = .ok left) :
    ∃ code, left.2 = .exited code := by
  fun_induction startWithin programs depth startable path call m with
  | case1 depth path call m name program hprogram =>
      rw [← Except.ok.inj hstart]
      exact hexits name program hprogram call m
  | case2 | case3 | case4 | case5 => simp at hstart
  | case6 path call m contents header hheader interpreter startable hopen depth ih =>
      exact ih hstart

/-- Whatever is started ends by itself. -/
theorem Exit.exists_code_of_start (hexits : programs.Exit)
    (hstart : programs.start path call m = .ok left) : ∃ code, left.2 = .exited code := by
  simp only [start] at hstart
  split at hstart
  · simp at hstart
  · split at hstart
    · simp at hstart
    · exact hexits.exists_code_of_startWithin hstart

end Programs

namespace Execution

variable {host : Host} {shell : Shell} {m : Machine} {place : Location} {held : Option Bytes}
  {cwd : WorkingDirectory} {file : String} {command : Command} {turn final : Turn} {task : Task}
  {state : Bytes × Machine}

/-- A command that carries out a task as a stage, on every machine that looks as one does. -/
def Does (host : Host) (shell : Shell) (m : Machine) (place : Location) (command : Command)
    (task : Task) : Prop :=
  ∀ x, m.LooksLike place x → ∀ streams process,
    stage host shell command streams process x = task.run streams x

/-- A turn at which the next stage has a task, and at which a flow has come to some state. The stage
receives what can be read from a row that was there before, or what waits in a pipe. -/
structure Turn.Stands (turn : Turn) (m : Machine) (place : Location) (held : Option Bytes)
    (task : Task) (state : Bytes × Machine) : Prop where
  continues : m.Continues place held turn.machine
  receives : turn.input < m.channels.length ∧ (turn.machine.unread turn.input).1 = state.1 ∨
    turn.machine.Waits turn.input state.1
  apart : (task.taken turn.input turn.machine).apart m.channels.length place = state.2

namespace Turn

theorem Stands.input_lt (h : turn.Stands m place held task state) :
    turn.input < turn.machine.channels.length := by
  rcases h.receives with ⟨hlt, -⟩ | hwaits
  · exact Nat.lt_of_lt_of_le hlt h.continues.length_le
  · exact hwaits.lt_length

/-- A stage receives the same when other rows are added. -/
theorem Stands.unread_eq (hfresh : m.FreshAt cwd file place)
    (h : turn.Stands m place held task state) {y : Machine} {other : Option Bytes}
    (hy : m.Continues place other y) (hkeeps : Machine.KeepsRow turn.input turn.machine y)
    (hsame : y.apart m.channels.length place = turn.machine.apart m.channels.length place) :
    (y.unread turn.input).1 = state.1 := by
  rcases h.receives with ⟨hlt, hunread⟩ | hwaits
  · rw [← hunread, ← Machine.unread_apart hfresh hy hlt, hsame,
      Machine.unread_apart hfresh h.continues hlt]
  · rw [(hwaits.of_keepsRow hkeeps).unread_eq]

/-- What a stage leaves in its pipe comes to the next one, whatever its task is. -/
theorem stands_following {left : Machine} {sent : Bytes}
    (hpipe : m.channels.length ≤ turn.pipe) (hleft : m.Continues place held left)
    (hwaits : left.Waits turn.pipe sent) (task : Task) :
    (turn.following left).Stands m place held task
      (sent, left.apart m.channels.length place) := by
  have hafter : (turn.following left).machine.Waits turn.pipe sent :=
    (hwaits.closeFrom (Nat.lt_succ_self _)).cutIfStarved turn.input
  have hclosed := hleft.closeFrom (Nat.le_succ_of_le hpipe)
  refine ⟨(hclosed.cutIfStarved _ _).withPatience _, .inr hafter, ?_⟩
  calc
    (task.taken turn.pipe (turn.following left).machine).apart m.channels.length place =
        (turn.following left).machine.apart m.channels.length place :=
      Task.taken_apart_of_le hpipe task _
    _ = (left.closeFrom (turn.pipe + 1)).apart m.channels.length place :=
      Machine.apart_cutIfStarved hpipe _
    _ = left.apart m.channels.length place :=
      Machine.apart_closeFrom (Nat.le_succ_of_le hpipe) left

/-- A stage leads from one state of the flow to the next one. -/
theorem Stands.after (hfresh : m.FreshAt cwd file place)
    (herror : host.streams.error < m.channels.length) (h : turn.Stands m place held task state)
    (hdoes : Does host shell m place command task) (patience : Nat) (next : Task) :
    (turn.after host shell command patience).Stands m place held next
      (task.step host.streams.error state) := by
  have hpipe : m.channels.length ≤ turn.pipe := h.continues.length_le
  have hopened : m.Continues place held (turn.withPipe patience) :=
    (h.continues.withPatience patience).addPipe
  have hsame : (turn.withPipe patience).apart m.channels.length place =
      turn.machine.apart m.channels.length place :=
    Machine.apart_addChannel hpipe (.stream .pipe)
  have hreceived := h.unread_eq hfresh hopened (turn.keepsRow_withPipe patience turn.input) hsame
  -- The pipe takes all that is sent, and the rest goes to rows that were there before.
  have hempty : (task.taken turn.input (turn.withPipe patience)).Holds turn.pipe [] := by
    have hkeeps := Task.keepsRow_taken (Nat.ne_of_gt h.input_lt) task (turn.withPipe patience)
    exact hkeeps.passes.holds [] (turn.holds_withPipe patience)
  obtain ⟨after, hwrite, hafter⟩ := Machine.exists_write_of_holds hempty (task.sent state.1)
  have htaken := Task.continues_taken hopened task turn.input
  have hcontinues := htaken.writePipe hempty hwrite
  have hapart : after.apart m.channels.length place = state.2 := by
    rw [Machine.apart_of_write htaken hpipe hwrite,
      Task.taken_apart_congr hfresh h.continues hopened hsame, h.apart]
  have hrun : (stage host shell command ⟨turn.input, turn.pipe, host.streams.error⟩ turn.process
      (turn.withPipe patience)).1 = (task.pass host.streams.error state.1 after).1 := by
    rw [hdoes _ (hopened.looksLike hfresh), Task.run_eq_finish]
    dsimp only
    rw [hreceived, Task.finish_of_write hwrite]
  have hwaits : (task.pass host.streams.error state.1 after).1.Waits turn.pipe
      (task.sent state.1) := by
    have hne : turn.pipe ≠ host.streams.error := Nat.ne_of_gt (Nat.lt_of_lt_of_le herror hpipe)
    exact hafter.waits.of_keepsRow (Task.keepsRow_pass hne task state.1 after)
  have hleft : (task.pass host.streams.error state.1 after).1.apart m.channels.length place =
      (task.pass host.streams.error state.1 state.2).1 := by
    rw [← hapart, Task.pass_apart hfresh hcontinues herror]
    rfl
  have hstands := stands_following hpipe
    (Task.continues_pass hfresh hcontinues herror task state.1) hwaits next
  rw [hleft, ← hrun] at hstands
  exact hstands

/-- The last stage carries its task out on what the flow has come to. -/
theorem Stands.finish (hfresh : m.FreshAt cwd file place)
    (houtput : host.streams.output < m.channels.length)
    (herror : host.streams.error < m.channels.length) (h : turn.Stands m place held task state)
    (hdoes : Does host shell m place command task) :
    task.finish host.streams.output host.streams.error state.1 state.2 =
      (stage host shell command { host.streams with input := turn.input } turn.process
        turn.machine).map (·.apart m.channels.length place) id := by
  have hreceived := h.unread_eq hfresh h.continues (.refl _ _) rfl
  rw [hdoes _ (h.continues.looksLike hfresh), Task.run_eq_finish, ← hreceived, ← h.apart]
  exact Task.finish_apart hfresh (Task.continues_taken h.continues task turn.input) houtput herror
    task _

end Turn

/-- The stages before the last one are the steps of a flow. -/
theorem stands_of_reachesLast (hfresh : m.FreshAt cwd file place)
    (herror : host.streams.error < m.channels.length) {before : List Command} {tasks : List Task}
    {last : Command} {next : Task} (hdoes : List.Forall₂ (Does host shell m place) before tasks)
    (hreaches : ReachesLast host shell (before ++ [last]) turn final)
    (hstands : ∀ task ∈ (tasks ++ [next]).head?, turn.Stands m place held task state) :
    final.Stands m place held next (tasks.foldl (Task.step host.streams.error) state) := by
  induction hdoes generalizing turn state with
  | nil =>
      cases hreaches with
      | last => exact hstands next rfl
  | @cons command task before tasks hcommand hdoes ih =>
      obtain ⟨second, rest, hrest⟩ :=
        List.exists_cons_of_ne_nil (show before ++ [last] ≠ [] by simp)
      rw [List.cons_append, hrest] at hreaches
      cases hreaches with
      | next patience tail =>
          rw [← hrest] at tail
          apply ih tail
          intro other _
          exact (hstands task rfl).after hfresh herror hcommand patience other

/-- When programs end by themselves, the shell can wait for all stages. -/
theorem exists_code_of_stage (hexits : host.programs.Exit) (shell : Shell) (command : Command)
    (streams : Streams) (process : Nat) (x : Machine) :
    ∃ code : Nat, waitFor (stage host shell command streams process x).2 = .ok code := by
  rcases stage_cases host shell command streams process x with
    ⟨said, row, text, code, -, hstage⟩ | ⟨opened, redirection, b, -, -, hstage⟩ |
    ⟨opened, redirection, path, left, -, -, hstart, hstage⟩
  · rw [hstage]
    exact exists_waitFor_endWith ..
  · rw [hstage]
    exact exists_waitFor_runBuiltin ..
  · obtain ⟨code, hcode⟩ := hexits.exists_code_of_start hstart
    rw [hstage, hcode]
    exact ⟨code, rfl⟩

theorem exists_code_of_mem_stages (hexits : host.programs.Exit)
    {process input : Nat} {commands : List Command} {x : Machine} {ending : Ending}
    (hending : ending ∈ (stages host shell process input commands x).2) :
    ∃ code : Nat, waitFor ending = .ok code := by
  induction commands generalizing process input x with
  | nil => simp [stages] at hending
  | cons command rest ih =>
      cases rest with
      | nil =>
          obtain ⟨code, hcode⟩ := exists_code_of_stage hexits shell command
            { host.streams with input := input } process x
          obtain rfl := List.mem_singleton.mp hending
          exact ⟨code, hcode⟩
      | cons next rest =>
          simp only [stages] at hending
          obtain ⟨patience, hpatience⟩ := Machine.exists_patiently_eq _ _ _ x
          rw [hpatience] at hending
          rcases List.mem_cons.mp hending with rfl | hrest
          · exact exists_code_of_stage hexits shell command _ process _
          · exact ih hrest

/-- What a pipeline gives and leaves comes from its last stage. -/
theorem exists_last_of_execute (hexits : host.programs.Exit) (shell : Shell)
    {before : List Command} (hbefore : before ≠ []) (last : Command) (x : Machine) :
    ∃ final left ending, ∃ after : Machine, ∃ code : Nat,
      ReachesLast host shell (before ++ [last]) ⟨host.process + 1, host.streams.input, x⟩ final ∧
      stage host shell last { host.streams with input := final.input } final.process
        final.machine = (left, ending) ∧
      waitFor ending = .ok code ∧ after.forgetEnds = left.forgetEnds ∧
      execute host shell x (before ++ [last]) =
        (after.closeFrom x.channels.length, shell, .ok (.proceed code)) := by
  have hne : before ++ [last] ≠ [] := by simp
  obtain ⟨final, ⟨left, ending⟩, hreaches, hstage, hmachine, hlast⟩ :=
    exists_last_stage host shell hne (host.process + 1) host.streams.input x
  rw [List.getLast_append_singleton] at hstage
  obtain ⟨code, hcode⟩ := exists_code_of_mem_stages hexits (List.mem_of_getLast? hlast)
  have hall : waitForAll (stages host shell (host.process + 1) host.streams.input
      (before ++ [last]) x).2 = .ok code := by
    rw [waitForAll_eq_of_getLast _ hlast, hcode]
    intro other hother
    obtain ⟨status, hstatus⟩ := exists_code_of_mem_stages hexits hother
    rw [hstatus]
    rfl
  refine ⟨final, left, ending, _, code, hreaches, hstage, hcode, hmachine, ?_⟩
  obtain ⟨first, more, rfl⟩ := List.exists_cons_of_ne_nil hbefore
  obtain ⟨second, rest, hrest⟩ :=
    List.exists_cons_of_ne_nil (show more ++ [last] ≠ [] by simp)
  rw [List.cons_append, hrest] at hall ⊢
  simp only [execute, pipeline, hall, Except.map]

/-- A pipeline whose last stage finds the state of a flow ends as the last task of the flow does. -/
theorem execute_eq_finish (hfresh : m.FreshAt cwd file place) (hexits : host.programs.Exit)
    (houtput : host.streams.output < m.channels.length)
    (herror : host.streams.error < m.channels.length) {before : List Command}
    (hbefore : before ≠ []) {last : Command} (hdoes : Does host shell m place last task)
    {x : Machine} (hlength : m.channels.length ≤ x.channels.length)
    (hstands : ∀ final, ReachesLast host shell (before ++ [last])
      ⟨host.process + 1, host.streams.input, x⟩ final → final.Stands m place held task state) :
    ∃ (code : Nat) (ending : Ending), waitFor ending = .ok code ∧
      (execute host shell x (before ++ [last])).2 = (shell, .ok (.proceed code)) ∧
      task.finish host.streams.output host.streams.error state.1 state.2 =
        ((execute host shell x (before ++ [last])).1.apart m.channels.length place, ending) := by
  obtain ⟨final, left, ending, after, code, hreaches, hstage, hcode, hsame, hexecute⟩ :=
    exists_last_of_execute hexits shell hbefore last x
  refine ⟨code, ending, hcode, congrArg Prod.snd hexecute, ?_⟩
  rw [(hstands final hreaches).finish hfresh houtput herror hdoes, hstage, hexecute]
  refine Prod.ext ?_ rfl
  calc
    left.apart m.channels.length place = after.apart m.channels.length place := by
      rw [← Machine.apart_forgetEnds, ← hsame, Machine.apart_forgetEnds]
    _ = (after.closeFrom x.channels.length).apart m.channels.length place :=
      (Machine.apart_closeFrom hlength after).symm

end Execution

end LineShell
