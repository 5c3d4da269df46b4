import LineShell.Proofs.SavedFlow

/-!
# A pipeline that is cut

A pipeline can be cut in two: its first stages are run with a redirect to a new file, and then a
program that copies this file takes their place in front of the others. That leaves the same
octets on the streams of the shell and in all other files, and gives the same status.

## Implementation notes

What goes through a pipe in one run goes through the file in the other one. Both runs are the same
flow, apart from the file.
-/

namespace LineShell

/-- A command that copies a file. -/
def Command.copying (file : String) : Command := ⟨"cat", [file], []⟩

/-- A program that copies a file to its output, when it is called `cat` and given the path. -/
def Program.Copies (program : Program) (file : String) : Prop :=
  ∀ call x contents after, call.arguments = ["cat", file] →
    x.volume.readFile call.directory file = .ok contents →
    x.write call.streams.output contents = .ok after → program call x = (after, .exited 0)

namespace Execution

/-- Runs one pipeline after another, as the loop does. -/
def executeBoth (host : Host) (shell : Shell) (m : Machine) (first second : List Command) :
    Machine × Shell × Except ShellError Flow :=
  let run := execute host shell m first
  execute host run.2.1 (reported host run) second

/-- `cat` leads to a program that copies a file, and the file is not seen on the way there. -/
structure IsCopier (host : Host) (shell : Shell) (m : Machine) (place : Location) (file : String) :
    Prop where
  found : ∃ path name program,
    Lookup.find? m.volume shell.directory shell.environment "cat" = some path ∧
    m.openToRun shell.directory path = .ok (.program name) ∧
    host.programs name = some program ∧ program.Copies file
  unseen : ∀ path ∈ (Command.copying file).asked shell m,
    place ∉ m.volume.passed shell.directory path .follow
  short : Programs.isTooLong (stageCall host shell (.copying file) host.streams host.process) =
    false

variable {host : Host} {shell : Shell} {m x : Machine} {place : Location} {file : String}
  {turn : Turn} {task : Task}

/-- The new file is read by its path. -/
theorem readFile_eq (hfresh : m.FreshAt shell.directory file place) {contents : Bytes}
    (h : m.Continues place (some contents) x) :
    x.volume.readFile shell.directory file = .ok contents := by
  have hlook := (h.looksLike hfresh).volume
  have hvacant := hlook.remove.locate_vacant (by simp) hfresh.vacant
  have hchanges : (x.volume.remove place).Changes x.volume place m.volume.free contents :=
    { before := by simp
      after := ⟨.ofNewFile, h.own⟩
      others := by
        intro spot hspot
        rw [Volume.find?_remove, if_neg hspot] }
  obtain ⟨permissions, hlocate⟩ := hchanges.locate_of_create hvacant ⟨rfl, rfl⟩
  have hfound : x.volume.find? place = some ⟨m.volume.free, .file contents permissions⟩ :=
    Volume.agrees_of_locate hlocate
  obtain rfl : .ofNewFile = permissions := by
    simpa using (h.own.symm.trans hfound)
  simp [Volume.readFile, Volume.lookUp, hlocate, Permissions.ofNewFile]

/-- Nothing is reached where a new file can be created. -/
theorem reaches_of_freshAt (hfresh : m.FreshAt shell.directory file place) :
    m.volume.reaches shell.directory file = false := by
  have hlocate := Volume.locate_follow_of_create hfresh.vacant
    (show (Destination.vacant place false).IsAt place from ⟨rfl, rfl⟩)
  simp [Volume.reaches, Volume.lookUp, hlocate, Except.isOk, Except.toBool]

theorem hasNul_of_reaches {path : String}
    (h : m.volume.reaches shell.directory path = true) : hasNul path = false := by
  rcases Volume.reaches_iff.mp h with ⟨directory, hlocate⟩ | ⟨spot, entry, slash, hlocate, -⟩
  · exact (Volume.locate_iff.mp hlocate).1
  · exact (Volume.locate_iff.mp hlocate).1

/-- The copier is found on the machine with the new file as well, and copies it when started. -/
theorem IsCopier.exists_path (hcopier : IsCopier host shell m place file)
    (hfresh : m.FreshAt shell.directory file place) {contents : Bytes}
    (h : m.Continues place (some contents) x) :
    ∃ path, (Handler.program path).Answers x.volume shell.directory shell.environment "cat" ∧
      hasNul path = false ∧
      ∀ streams process after, x.write streams.output contents = .ok after →
        host.programs.start path (stageCall host shell (.copying file) streams process) x =
          .ok (after, .exited 0) := by
  obtain ⟨path, name, program, hfound, hopens, hknown, hcopies⟩ := hcopier.found
  have hbuiltin : Builtin.ofName? "cat" = none := by decide
  have hlook := h.looksLike hfresh
  have htried : ∀ path ∈ Lookup.tried m.volume shell.directory shell.environment "cat",
      place ∉ m.volume.passed shell.directory path .follow := by
    intro path hpath
    apply hcopier.unseen path
    simp only [Command.asked, Command.copying, hbuiltin]
    exact List.mem_append_left _ hpath
  refine ⟨path, ⟨hbuiltin, (hlook.find? htried).trans hfound⟩,
    hasNul_of_reaches (Lookup.reaches_of_find? hfound), ?_⟩
  intro streams process after hwrite
  have hshort : Programs.isTooLong (stageCall host shell (.copying file) streams process) = false :=
    hcopier.short
  have hopened : x.openToRun (stageCall host shell (.copying file) streams process).directory
      path = .ok (.program name) :=
    (hlook.openToRun (htried path (Lookup.mem_tried_of_find? hfound))).trans hopens
  have hcopied := hcopies (stageCall host shell (.copying file) streams process) x contents after
    rfl (readFile_eq hfresh h) hwrite
  simp only [Programs.start, hshort, Bool.false_eq_true, if_false, hopened, Programs.startWithin,
    hknown, hcopied]

/-- The copier writes the new file to its output. -/
theorem IsCopier.stage_eq (hcopier : IsCopier host shell m place file)
    (hfresh : m.FreshAt shell.directory file place) {contents : Bytes} {after : Machine}
    (h : m.Continues place (some contents) x) {streams : Streams} (process : Nat)
    (hwrite : x.write streams.output contents = .ok after) :
    stage host shell (.copying file) streams process x = (after, .exited 0) := by
  obtain ⟨path, hanswers, hnul, hstarts⟩ := hcopier.exists_path hfresh h
  have hclean : (path :: (Command.copying file).arguments).any hasNul = false := by
    have hcat : hasNul "cat" = false := by decide
    have hfile : hasNul file = false := (Volume.locate_iff.mp hfresh.vacant).1
    simp [Command.copying, Command.arguments, hnul, hcat, hfile]
  have hstart := hstarts streams process after hwrite
  simp only [stageCall] at hstart
  rw [stage_eq_handler rfl hanswers, Handler.stage, hclean]
  simp only [Bool.false_eq_true, if_false, runProgram, Redirection.apply, Redirection.none,
    Option.getD_none, hstart]

/-- Copying the new file into a pipe starts the flow where the first run has left it. -/
theorem IsCopier.stands_after (hcopier : IsCopier host shell m place file)
    (hfresh : m.FreshAt shell.directory file place) {contents : Bytes}
    (h : m.Continues place (some contents) turn.machine) (patience : Nat) (next : Task) :
    (turn.after host shell (.copying file) patience).Stands m place (some contents) next
      (contents, turn.machine.apart m.channels.length place) := by
  have hpipe : m.channels.length ≤ turn.pipe := h.length_le
  have hopened : m.Continues place (some contents) (turn.withPipe patience) :=
    (h.withPatience patience).addPipe
  obtain ⟨after, hwrite, hafter⟩ :=
    Machine.exists_write_of_holds (turn.holds_withPipe patience) contents
  have hcontinues := hopened.writePipe (turn.holds_withPipe patience) hwrite
  have hapart : after.apart m.channels.length place =
      turn.machine.apart m.channels.length place :=
    (Machine.apart_of_write hopened hpipe hwrite).trans (Machine.apart_addChannel hpipe _)
  have hstage : stage host shell (.copying file) ⟨turn.input, turn.pipe, host.streams.error⟩
      turn.process (turn.withPipe patience) = (after, .exited 0) :=
    hcopier.stage_eq hfresh hopened turn.process hwrite
  have hturn : turn.after host shell (.copying file) patience = turn.following after :=
    congrArg (fun left : Machine × Ending => turn.following left.1) hstage
  rw [hturn, ← hapart]
  exact Turn.stands_following hpipe hcontinues hafter.waits next

theorem exists_tasks {before : List Command}
    (h : ∀ command ∈ before, ∃ task, Does host shell m place command task) :
    ∃ tasks, List.Forall₂ (Does host shell m place) before tasks := by
  induction before with
  | nil => exact ⟨[], .nil⟩
  | cons command before ih =>
      obtain ⟨task, htask⟩ := h command List.mem_cons_self
      obtain ⟨tasks, htasks⟩ := ih fun other hother => h other (List.mem_cons_of_mem _ hother)
      exact ⟨task :: tasks, .cons htask htasks⟩

theorem length_channels_execute_le (commands : List Command) :
    (execute host shell x commands).1.channels.length ≤ x.channels.length :=
  List.length_take_le ..

end Execution

/-- What two machines have in common that differ by a file at one place: all that the rows hold, and
all other files. -/
structure Machine.AgreesApart (x y : Machine) (place : Location) : Prop where
  channels : x.forgetEnds.channels = y.forgetEnds.channels
  files : ∀ spot, spot ≠ place → x.volume.find? spot = y.volume.find? spot

theorem Machine.agreesApart_of_apart_eq {x y : Machine} {rows : Nat} {place : Location}
    (hx : x.channels.length ≤ rows) (hy : y.channels.length ≤ rows)
    (h : x.apart rows place = y.apart rows place) : x.AgreesApart y place where
  channels := by
    have hchannels := congrArg Machine.channels h
    simp only [apart, List.take_of_length_le hx, List.take_of_length_le hy] at hchannels
    exact hchannels
  files := by
    intro spot hspot
    have hfind : (x.volume.apart place).find? spot = (y.volume.apart place).find? spot :=
      congrArg (fun machine => machine.volume.find? spot) h
    simpa only [Volume.find?_apart, if_neg hspot] using hfind

namespace Execution

variable {host : Host} {shell : Shell} {m : Machine} {place : Location} {file : String}

section Cut

variable {before between : List Command} {cut last : Command} {tasks others : List Task}
  {task next first : Task} (hfresh : m.FreshAt shell.directory file place)
  (hexits : host.programs.Exit) (hinput : host.streams.input < m.channels.length)
  (houtput : host.streams.output < m.channels.length)
  (herror : host.streams.error < m.channels.length)
  (hbefore : List.Forall₂ (Does host shell m place) before tasks)
  (hbetween : List.Forall₂ (Does host shell m place) between others)
  (hlast : Does host shell m place last next) (hfirst : (tasks ++ [task]).head? = some first)
include hfresh hexits hinput houtput herror hbefore hbetween hlast hfirst

/-- What the whole pipeline comes to. -/
theorem exists_code_of_execute (hcut : Does host shell m place cut task) :
    let whole := execute host shell m (before ++ cut :: (between ++ [last]))
    let middle := (tasks ++ [task]).foldl (Task.step host.streams.error)
      (flowStart m place host.streams.input first)
    let state := others.foldl (Task.step host.streams.error) middle
    ∃ (code : Nat) (ending : Ending), waitFor ending = .ok code ∧
      whole.2 = (shell, .ok (.proceed code)) ∧
      next.finish host.streams.output host.streams.error state.1 state.2 =
        (whole.1.apart m.channels.length place, ending) := by
  intro whole middle state
  have hstate : state = (tasks ++ task :: others).foldl (Task.step host.streams.error)
      (flowStart m place host.streams.input first) := by
    simp [state, middle, List.foldl_append]
  have hhead : (tasks ++ task :: others ++ [next]).head? = some first := by
    cases tasks <;> exact hfirst
  have hstands (final : Turn) (hreaches : ReachesLast host shell
      ((before ++ cut :: between) ++ [last]) ⟨host.process + 1, host.streams.input, m⟩ final) :
      final.Stands m place none next state := by
    rw [hstate]
    apply stands_of_reachesLast hfresh herror (List.rel_append hbefore (.cons hcut hbetween))
      hreaches
    intro other hother
    obtain rfl : first = other := Option.some.inj (hhead.symm.trans hother)
    exact stands_flowStart hfresh hinput _ first
  have hwhole :=
    execute_eq_finish hfresh hexits houtput herror (by simp) hlast (Nat.le_refl _) hstands
  simpa only [List.append_assoc, List.cons_append] using hwhole

/-- The two runs come to the same. -/
theorem exists_code_of_executeBoth {handler : Handler}
    (hcut : handler.Does host shell m place cut task) (hcopier : IsCopier host shell m place file)
    (append : Bool) :
    let both := executeBoth host shell m (before ++ [cut.sendingTo file append])
      (.copying file :: (between ++ [last]))
    let middle := (tasks ++ [task]).foldl (Task.step host.streams.error)
      (flowStart m place host.streams.input first)
    let state := others.foldl (Task.step host.streams.error) middle
    ∃ (code : Nat) (ending : Ending), waitFor ending = .ok code ∧
      both.2 = (shell, .ok (.proceed code)) ∧
      both.1.channels.length ≤ m.channels.length ∧
      next.finish host.streams.output host.streams.error state.1 state.2 =
        (both.1.apart m.channels.length place, ending) := by
  intro both middle state
  let saved := reported host (execute host shell m (before ++ [cut.sendingTo file append]))
  obtain ⟨hshell, hcontinues, hapart, hlength⟩ :
      _ ∧ m.Continues place (some middle.1) saved ∧
        saved.apart m.channels.length place = middle.2 ∧
        saved.channels.length = m.channels.length :=
    saved_of_execute hfresh hexits hinput herror hbefore hcut hfirst append
  have hstands (final : Turn) (hreaches : ReachesLast host shell
      ((.copying file :: between) ++ [last]) ⟨host.process + 1, host.streams.input, saved⟩ final) :
      final.Stands m place (some middle.1) next state := by
    obtain ⟨second, rest, hrest⟩ :=
      List.exists_cons_of_ne_nil (show between ++ [last] ≠ [] by simp)
    rw [List.cons_append, hrest] at hreaches
    cases hreaches with
    | next patience tail =>
        rw [← hrest] at tail
        apply stands_of_reachesLast hfresh herror hbetween tail
        intro other _
        have hcopied := hcopier.stands_after hfresh
          (show m.Continues place _ (Turn.machine ⟨host.process + 1, host.streams.input, saved⟩)
            from hcontinues) patience other
        rw [hapart] at hcopied
        exact hcopied
  obtain ⟨code, ending, hwait, hcode, hfinish⟩ := execute_eq_finish hfresh hexits houtput herror
    (by simp) hlast (Nat.le_of_eq hlength.symm) hstands
  have hboth : both = execute host shell saved (.copying file :: (between ++ [last])) := by
    simp only [both, executeBoth, saved, hshell]
  rw [hboth]
  refine ⟨code, ending, hwait, hcode, ?_, hfinish⟩
  rw [← hlength]
  exact length_channels_execute_le _

end Cut

/-- A pipeline of plain stages can be cut behind any stage but the last one, when no stage sees the
new file: both ways give the status of the last stage, and leave the same on all rows and in all
other files. -/
theorem executeBoth_agrees (hfresh : m.FreshAt shell.directory file place)
    (hinput : host.streams.input < m.channels.length)
    (houtput : host.streams.output < m.channels.length)
    (herror : host.streams.error < m.channels.length)
    (hprograms : host.programs.AreFilters ["cat", file])
    (hcopier : IsCopier host shell m place file) {before later : List Command} {cut : Command}
    (hlater : later ≠ [])
    (hplain : ∀ command ∈ before ++ cut :: later, command.IsPlain shell m place file)
    (append : Bool) :
    let whole := execute host shell m (before ++ cut :: later)
    let both := executeBoth host shell m (before ++ [cut.sendingTo file append])
      (.copying file :: later)
    ∃ code : Nat, whole.2 = (shell, .ok (.proceed code)) ∧
      both.2 = (shell, .ok (.proceed code)) ∧ whole.1.AgreesApart both.1 place := by
  have htask : ∀ command ∈ before ++ cut :: later,
      ∃ handler task, Handler.Does handler host shell m place command task := by
    intro command hcommand
    exact (hplain command hcommand).exists_task hprograms (reaches_of_freshAt hfresh)
  have hdoes : ∀ command ∈ before ++ cut :: later,
      ∃ task, Does host shell m place command task := by
    intro command hcommand
    obtain ⟨handler, task, hhandler⟩ := htask command hcommand
    exact ⟨task, hhandler.stage (hplain command hcommand).redirects⟩
  have hmem : cut ∈ before ++ cut :: later := by simp
  obtain rfl | ⟨between, last, rfl⟩ := List.eq_nil_or_concat' later
  · exact absurd rfl hlater
  obtain ⟨tasks, hbefore⟩ := exists_tasks fun command (hcommand : command ∈ before) =>
    hdoes command (List.mem_append_left _ hcommand)
  obtain ⟨handler, task, hcut⟩ := htask cut hmem
  obtain ⟨others, hbetween⟩ := exists_tasks fun command (hcommand : command ∈ between) =>
    hdoes command (by simp [hcommand])
  obtain ⟨next, hlast⟩ := hdoes last (by simp)
  obtain ⟨first, hfirst⟩ : ∃ first, (tasks ++ [task]).head? = some first := by
    cases tasks <;> exact ⟨_, rfl⟩
  obtain ⟨code, ending, hcode, hwhole, hsame⟩ :=
    exists_code_of_execute hfresh hprograms.exits hinput houtput herror hbefore hbetween hlast
      hfirst (hcut.stage (hplain cut hmem).redirects)
  obtain ⟨code', ending', hcode', hboth, hlength, hsame'⟩ :=
    exists_code_of_executeBoth hfresh hprograms.exits hinput houtput herror hbefore hbetween
      hlast hfirst hcut hcopier append
  obtain ⟨hapart, rfl⟩ := Prod.mk.inj (hsame.symm.trans hsame')
  obtain rfl : code = code' := Int.ofNat.inj (Except.ok.inj (hcode.symm.trans hcode'))
  exact ⟨code, hwhole, hboth,
    Machine.agreesApart_of_apart_eq (length_channels_execute_le _) hlength hapart⟩

end Execution

/-- Programs that are filters, but copy a file when they are called `cat` and given its path. -/
def Programs.withCopier (filters : Filters) (file : String) : Programs := fun name =>
  (filters name).map fun filter call m =>
    if call.arguments = ["cat", file] then
      match m.volume.readFile call.directory file with
      | .ok contents => (m.writeOrSkip call.streams.output contents, .exited 0)
      | .error _ => (m, .exited 1)
    else Program.ofFunction filter call m

theorem Programs.areFilters_withCopier (filters : Filters) (file : String) :
    (withCopier filters file).AreFilters ["cat", file] where
  filters := by
    intro name program hprogram
    obtain ⟨filter, -, rfl⟩ := Option.map_eq_some_iff.mp hprogram
    exact ⟨filter, fun call m hother => if_neg hother⟩
  exits := by
    intro name program hprogram call m
    obtain ⟨filter, -, rfl⟩ := Option.map_eq_some_iff.mp hprogram
    dsimp only
    split
    · split <;> exact ⟨_, rfl⟩
    · exact ⟨_, rfl⟩

theorem Programs.copies_withCopier {filters : Filters} {file name : String} {program : Program}
    (h : withCopier filters file name = some program) : program.Copies file := by
  obtain ⟨filter, -, rfl⟩ := Option.map_eq_some_iff.mp h
  intro call x contents after harguments hread hwrite
  simp only [harguments, if_true, hread, Machine.writeOrSkip, hwrite]

namespace Execution

/-- What `echo` writes is turned around twice, the second time out of a file. -/
theorem executeBoth_agrees_of_reversed_echo :
    let filters : Filters := fun _ => some fun _ input => (input.reverse, [], 0)
    let host : Host := ⟨.withCopier filters "m", ⟨0, 1, 2⟩, 1⟩
    let shell : Shell := ⟨⟨[("PATH", "/")]⟩, ⟨[("PATH", "/")]⟩, .root, ⟨[], 0, 0⟩⟩
    let m : Machine := ⟨⟨[([], ⟨0, .newDirectory⟩), ([.text "rev"], ⟨1, .program "rev"⟩),
      ([.text "cat"], ⟨2, .program "cat"⟩)], 3⟩, [.tape [] 0, .stream .empty, .stream .empty],
      none, [], 1⟩
    let whole := execute host shell m [⟨"echo", ["hi"], []⟩, ⟨"rev", [], []⟩, ⟨"rev", [], []⟩]
    let both := executeBoth host shell m
      [⟨"echo", ["hi"], []⟩, ⟨"rev", [], [⟨.output, "m", false⟩]⟩]
      [⟨"cat", ["m"], []⟩, ⟨"rev", [], []⟩]
    (∃ code : Nat, whole.2 = (shell, .ok (.proceed code)) ∧
      both.2 = (shell, .ok (.proceed code)) ∧ whole.1.AgreesApart both.1 [.text "m"]) ∧
    whole.1.unread 1 = (octets "hi\n", []) ∧ both.1.unread 1 = (octets "hi\n", []) := by
  intro filters host shell m whole both
  have hprograms := Programs.areFilters_withCopier filters "m"
  have hfresh : m.FreshAt shell.directory "m" [.text "m"] :=
    ⟨by decide +kernel, by decide +kernel, by decide +kernel, by decide +kernel⟩
  obtain ⟨program, hprogram⟩ :
      ∃ program, Programs.withCopier filters "m" "cat" = some program := ⟨_, rfl⟩
  have hcopier : IsCopier host shell m [.text "m"] "m" :=
    { found := ⟨"/cat", "cat", program, by decide +kernel, by decide +kernel, hprogram,
        Programs.copies_withCopier hprogram⟩
      unseen := by decide +kernel
      short := by decide +kernel }
  have hecho : (⟨"echo", ["hi"], []⟩ : Command).IsPlain shell m [.text "m"] "m" :=
    { redirects := rfl
      known := ⟨.builtin .echo, show Builtin.ofName? "echo" = some .echo by decide, by simp⟩
      unseen := by decide +kernel
      other := by decide }
  have hrev : (⟨"rev", [], []⟩ : Command).IsPlain shell m [.text "m"] "m" :=
    { redirects := rfl
      known := ⟨.program "/rev", ⟨by decide +kernel, by decide +kernel⟩, by simp⟩
      unseen := by decide +kernel
      other := by decide }
  have hplain : ∀ command ∈ [⟨"echo", ["hi"], []⟩] ++ ⟨"rev", [], []⟩ :: [⟨"rev", [], []⟩],
      Command.IsPlain command shell m [.text "m"] "m" := by
    intro command hcommand
    simp only [List.cons_append, List.nil_append, List.mem_cons, List.not_mem_nil, or_false,
      or_self] at hcommand
    rcases hcommand with rfl | rfl
    · exact hecho
    · exact hrev
  refine ⟨?_, by decide +kernel, by decide +kernel⟩
  exact executeBoth_agrees hfresh (by decide) (by decide) (by decide) hprograms hcopier
    (List.cons_ne_nil _ _) hplain false

end Execution

end LineShell
