import LineShell.Proofs.EchoedText
import LineShell.Proofs.StageCourses

/-!
# Commands do not see what was shown

What was shown on the output of the shell makes no difference to a line that is run, unless to a
program: builtins only write, files are opened in new rows, and pipes stand in new rows, too. So if
the programs do the same whatever waits in this stream, every line does.

## Implementation notes

Each function that works on the machine gets one lemma: on two machines of which one has some octets
more in the stream, it leaves such machines again, and the rest of its result is the same
(`Machine.Echoes`). The stream is in a row that was there before, so no row that is opened or closed
on the way is the one of the stream.
-/

namespace LineShell

namespace Machine

variable {m n : Machine} {row other input pipe : Nat} {echo : Bytes}

namespace Echoed

theorem isStarved_of_ne (h : m.Echoed row echo n) (hne : row ≠ other) :
    n.isStarved other = m.isStarved other := by
  simp only [isStarved, h.stream?_of_ne hne]

theorem cutIfStarved (h : m.Echoed row echo n) (hinput : row ≠ input) (hpipe : row ≠ pipe) :
    (m.cutIfStarved input pipe).Echoed row echo (n.cutIfStarved input pipe) := by
  simp only [Machine.cutIfStarved, h.isStarved_of_ne hinput, cut, h.channel?_of_ne hpipe]
  split
  · split
    · exact h.setChannel hpipe _
    · exact h
  · exact h

theorem reopenIfBlocked {first second : Machine} (h : m.Echoed row echo n)
    (hbefore : first.Echoed row echo second) (hinput : row ≠ input) (hpipe : row ≠ pipe) :
    (m.reopenIfBlocked first input pipe).Echoed row echo
      (n.reopenIfBlocked second input pipe) := by
  simp only [Machine.reopenIfBlocked, h.stream?_of_ne hpipe, hbefore.stream?_of_ne hinput,
    h.channel?_of_ne hinput]
  split
  · split
    · exact h.setChannel hinput _
    · exact h
  · exact h

theorem wanted?_eq (h : m.Echoed row echo n) (hinput : row ≠ input) (hpipe : row ≠ pipe) :
    n.wanted? input pipe = m.wanted? input pipe := by
  simp only [wanted?, h.isStarved_of_ne hinput, h.isStarved_of_ne hpipe, h.stream?_of_ne hpipe]

/-- All that can be read from another row is taken off it. -/
theorem takeAll (h : m.Echoed row echo n) (hne : row ≠ other) :
    Echoes row echo (m.takeAll other) (n.takeAll other) := by
  simp only [Machine.takeAll, consume, h.unread_of_ne hne, h.channel?_of_ne hne]
  refine ⟨?_, rfl⟩
  dsimp only
  split
  · exact h.setChannel hne _
  · split
    · exact h.setChannel hne _
    · exact h.setChannel hne _
    · exact h.setChannel hne _
    · exact h

theorem morePatient (h : m.Echoed row echo n) (written : Nat) :
    (m.morePatient written).Echoed row echo (n.morePatient written) := by
  simp only [Machine.morePatient, h.patience_eq]
  exact h.withPatience _

/-- A stream is no file, so it makes no difference to which files may be changed. -/
theorem isBeingChanged_eq (h : m.Echoed row echo n) (serial : Nat) :
    n.isBeingChanged serial = m.isBeingChanged serial := by
  obtain ⟨s, t, hrow, -, rfl⟩ := h
  obtain ⟨hlt, hrow⟩ := List.getElem?_eq_some_iff.mp hrow
  have hmap : (m.channels.set row (.stream t)).map (Channel.changes serial) =
      m.channels.map (Channel.changes serial) := by
    rw [List.map_set]
    apply List.ext_getElem
    · simp
    · intro i hfirst hsecond
      rw [List.getElem_set]
      split
      · rename_i hsame
        subst hsame
        simp [hrow, Channel.changes]
      · rfl
  have hany := congrArg (List.any · id) hmap
  rw [List.any_map, List.any_map] at hany
  exact hany

theorem openToRun_eq (h : m.Echoed row echo n) (cwd : WorkingDirectory) (path : String) :
    n.openToRun cwd path = m.openToRun cwd path := by
  simp only [openToRun, h.volume_eq, h.isBeingChanged_eq]

theorem openInterpreter_eq (h : m.Echoed row echo n) (cwd : WorkingDirectory) (path : String) :
    n.openInterpreter cwd path = m.openInterpreter cwd path := by
  simp only [openInterpreter, h.openToRun_eq]

end Echoed

/-- What comes to the same in each attempt comes to the same when it is tried patiently. -/
theorem echoes_patiently {α : Type} {first second : Machine → Machine × α}
    {wanted : Machine × α → Option Nat}
    (hattempt : ∀ a b : Machine, a.Echoed row echo b → Echoes row echo (first a) (second b))
    (hwanted : ∀ p q : Machine × α, Echoes row echo p q → wanted q = wanted p) (count : Nat)
    (h : m.Echoed row echo n) :
    Echoes row echo (patiently first wanted count m) (patiently second wanted count n) := by
  induction count generalizing m n with
  | zero => exact hattempt m n h
  | succ count ih =>
      have hresult := hattempt m n h
      simp only [patiently, hwanted _ _ hresult]
      cases wanted (first m) with
      | none => exact hresult
      | some written => exact ih (h.morePatient written)

end Machine

open Machine

variable {m n : Machine} {row : Nat} {echo : Bytes} {shell : Shell} {streams : Streams}
  {operands : List String}

/-! ## Builtins -/

namespace Builtin

theorem echoes_answer (h : m.Echoed row echo n) (other : Nat) (text : String) (shell : Shell)
    (code : Int) :
    Echoes row echo (answer m other text shell code) (answer n other text shell code) := by
  simp only [answer, print]
  obtain ⟨fault, hfirst, hsecond⟩ | ⟨after, final, hfirst, hsecond, hafter⟩ :=
    h.write other (octets text)
  · rw [hfirst, hsecond]
    exact ⟨h, rfl⟩
  · rw [hfirst, hsecond]
    exact ⟨hafter, rfl⟩

theorem echoes_withOptions (h : m.Echoed row echo n) {g : Options.Grammar}
    {first second : Options.Given → Result}
    (hgiven : ∀ given, Echoes row echo (first given) (second given)) :
    Echoes row echo (withOptions g operands streams shell m first)
      (withOptions g operands streams shell n second) := by
  simp only [withOptions]
  cases g.read operands with
  | given given => exact hgiven given
  | help text => exact echoes_answer h ..
  | faulty fault => exact echoes_answer h ..

theorem echoes_changeDirectory (h : m.Echoed row echo n) (target : String) :
    Echoes row echo (changeDirectory target streams shell m)
      (changeDirectory target streams shell n) := by
  simp only [changeDirectory, h.volume_eq]
  split
  · exact ⟨h, rfl⟩
  · split
    · exact echoes_answer h ..
    · exact echoes_answer h ..
    · split
      · exact ⟨h, rfl⟩
      · exact echoes_answer h ..

theorem echoes_keepHistory {first second : Machine × Except FileFault History}
    (h : Echoes row echo first second) (path : String) :
    Echoes row echo (keepHistory shell path first) (keepHistory shell path second) := by
  obtain ⟨after, final, result, rfl, rfl, hafter⟩ := h.exists_eq
  cases result with
  | ok kept => exact ⟨hafter, rfl⟩
  | error fault => exact ⟨hafter, rfl⟩

theorem echoes_showHistory (h : m.Echoed row echo n) (given : Options.Given) :
    Echoes row echo (showHistory given streams shell m) (showHistory given streams shell n) := by
  simp only [showHistory]
  split
  · rw [h.volume_eq]
    refine echoes_keepHistory ?_ _
    exact ⟨h, rfl⟩
  · exact echoes_keepHistory (History.echoes_writeFrom h ..) _
  · exact echoes_keepHistory (History.echoes_writeFrom h ..) _
  · split
    · exact ⟨h, rfl⟩
    · exact echoes_answer h ..
    · exact echoes_answer h ..

theorem echoes_execute (h : m.Echoed row echo n) (b : Builtin) (operands : List String)
    (streams : Streams) (shell : Shell) :
    Echoes row echo (b.execute operands streams shell m) (b.execute operands streams shell n) := by
  cases b with
  | exit =>
      simp only [execute]
      split
      · exact ⟨h, rfl⟩
      · exact ⟨h, rfl⟩
  | echo => exact echoes_answer h ..
  | type =>
      refine echoes_withOptions h fun given => ?_
      have hdescribe : describeName n shell = describeName m shell := by
        funext name
        simp only [describeName, h.volume_eq]
      simp only [typeNames, hdescribe]
      exact echoes_answer h ..
  | pwd =>
      refine echoes_withOptions h fun given => ?_
      rw [h.volume_eq]
      split
      · exact echoes_answer h ..
      · exact ⟨h, rfl⟩
  | cd => exact echoes_withOptions h fun given => echoes_changeDirectory h _
  | history => exact echoes_withOptions h fun given => echoes_showHistory h given

theorem echoes_run (h : m.Echoed row echo n) (b : Builtin) (operands : List String)
    (streams : Streams) (shell : Shell) :
    Echoes row echo (b.run operands streams shell m) (b.run operands streams shell n) := by
  obtain ⟨after, final, result, hfirst, hsecond, hafter⟩ :=
    (echoes_execute h b operands streams shell).exists_eq
  simp only [run, hfirst, hsecond]
  cases result with
  | ok kept => exact ⟨hafter, rfl⟩
  | error failure => exact ⟨hafter.printOrSkip .., rfl⟩

end Builtin

theorem Machine.echoes_endWith (h : m.Echoed row echo n) (other : Nat) (text : String)
    (ending : Ending) :
    Echoes row echo (m.endWith other text ending) (n.endWith other text ending) := by
  simp only [endWith, print]
  obtain ⟨fault, hfirst, hsecond⟩ | ⟨after, final, hfirst, hsecond, hafter⟩ :=
    h.write other (octets text)
  · rw [hfirst, hsecond]
    exact ⟨h, rfl⟩
  · rw [hfirst, hsecond]
    exact ⟨hafter, rfl⟩

theorem Execution.echoes_runBuiltin (h : m.Echoed row echo n) (b : Builtin) (shell : Shell)
    (operands : List String) (streams : Streams) :
    Echoes row echo (runBuiltin b shell operands streams m)
      (runBuiltin b shell operands streams n) := by
  obtain ⟨after, final, result, hfirst, hsecond, hafter⟩ :=
    (b.echoes_execute h operands streams shell).exists_eq
  simp only [runBuiltin, hfirst, hsecond]
  cases result with
  | ok kept => exact ⟨hafter, rfl⟩
  | error failure =>
      dsimp only
      split
      · exact ⟨hafter, rfl⟩
      · exact echoes_endWith hafter ..

/-! ## Redirects -/

namespace Redirection

variable {r : Redirection} {cwd : WorkingDirectory} {redirects : List Redirect}

theorem echoed_closeSuperseded (h : m.Echoed row echo n) {target : Target} {new : Nat}
    (hne : r.superseded target new ≠ some row) :
    (r.closeSuperseded m target new).Echoed row echo (r.closeSuperseded n target new) := by
  simp only [closeSuperseded]
  cases hold : r.superseded target new with
  | none => exact h
  | some old =>
      rw [hold] at hne
      exact h.setChannel (fun hsame => hne (congrArg some hsame.symm)) _

/-- Opening redirects leaves the stream alone, unless a redirect before them leads to it. -/
theorem echoes_openFrom (h : m.Echoed row echo n) (hsafe : ∀ target, r.row? target ≠ some row) :
    Echoes row echo (r.openFrom m cwd redirects) (r.openFrom n cwd redirects) := by
  induction redirects generalizing r m n with
  | nil => exact ⟨h, rfl⟩
  | cons redirect rest ih =>
      simp only [openFrom]
      obtain ⟨fault, hfirst, hsecond⟩ |
        ⟨⟨opened, _⟩, ⟨final, new⟩, hfirst, hsecond, ⟨hopened, rfl⟩, hlt⟩ :=
          h.openFile cwd redirect.path redirect.append
      · rw [hfirst, hsecond]
        exact ⟨h, rfl⟩
      · rw [hfirst, hsecond]
        have hne : new ≠ row := Nat.ne_of_gt hlt
        refine ih (echoed_closeSuperseded hopened ?_) ?_
        · intro hsuperseded
          rcases superseded_cases hsuperseded with hold | ⟨hsame, -⟩
          · exact hsafe _ hold
          · exact hne hsame.symm
        · intro target hrow
          rcases row?_send_cases hrow with ⟨hsame, -⟩ | ⟨hold, -⟩
          · exact hne hsame.symm
          · exact hsafe target hold

theorem echoes_openAll (h : m.Echoed row echo n) (cwd : WorkingDirectory)
    (redirects : List Redirect) :
    Echoes row echo (openAll m cwd redirects) (openAll n cwd redirects) := by
  apply echoes_openFrom h
  intro target
  simp [row?_none]

end Redirection

/-! ## Programs -/

/-- A program does the same whatever else waits in the stream in a row, unless it reads from it. -/
def Program.Ignores (program : Program) (row : Nat) : Prop :=
  ∀ (call : Call) (m n : Machine) (echo : Bytes), row ≠ call.streams.input →
    m.Echoed row echo n → Echoes row echo (program call m) (program call n)

namespace Programs

variable {programs : Programs}

/-- Every program does the same whatever else waits in the stream in a row. -/
def Ignore (programs : Programs) (row : Nat) : Prop :=
  ∀ name program, programs name = some program → program.Ignores row

theorem echoes_startWithin (hprograms : programs.Ignore row) (h : m.Echoed row echo n)
    {depth : Nat} {startable : Startable} {path : String} {call : Call}
    (hinput : row ≠ call.streams.input) :
    Both (Echoes row echo) (programs.startWithin depth startable path call m)
      (programs.startWithin depth startable path call n) := by
  fun_induction startWithin programs depth startable path call m with
  | case1 depth path call m name program hprogram =>
      simp only [startWithin, hprogram]
      exact .inr ⟨_, _, rfl, rfl, hprograms name program hprogram call m n echo hinput h⟩
  | case2 depth path call m name hnone =>
      simp only [startWithin, hnone]
      exact .inl ⟨_, rfl, rfl⟩
  | case3 depth path call m contents hnone =>
      simp only [startWithin, hnone]
      exact .inl ⟨_, rfl, rfl⟩
  | case4 depth path call m contents header hheader interpreter fault hopen =>
      have hsame :=
        (h.openInterpreter_eq call.directory (Utf8.lossy header.interpreter)).trans hopen
      simp only [startWithin, hheader, hsame]
      exact .inl ⟨_, rfl, rfl⟩
  | case5 path call m contents header hheader interpreter startable hopen =>
      have hsame :=
        (h.openInterpreter_eq call.directory (Utf8.lossy header.interpreter)).trans hopen
      simp only [startWithin, hheader, hsame]
      exact .inl ⟨_, rfl, rfl⟩
  | case6 path call m contents header hheader interpreter startable hopen depth ih =>
      have hsame :=
        (h.openInterpreter_eq call.directory (Utf8.lossy header.interpreter)).trans hopen
      simp only [startWithin, hheader, hsame]
      exact ih h hinput

/-- Starting a file comes to the same, too, whether it can be started or not. -/
theorem echoes_start (hprograms : programs.Ignore row) (h : m.Echoed row echo n) (path : String)
    (call : Call) (hinput : row ≠ call.streams.input) :
    Both (Echoes row echo) (programs.start path call m) (programs.start path call n) := by
  simp only [start, h.openToRun_eq]
  split
  · exact .inl ⟨_, rfl, rfl⟩
  · split
    · exact .inl ⟨_, rfl, rfl⟩
    · exact echoes_startWithin hprograms h hinput

end Programs

/-- Programs that are functions of their arguments and their input do. -/
theorem Programs.ignore_ofFilters (filters : Filters) (row : Nat) :
    (ofFilters filters).Ignore row := by
  intro name program hprogram call m n echo hinput h
  obtain ⟨filter, -, rfl⟩ := Option.map_eq_some_iff.mp hprogram
  obtain ⟨htaken, -⟩ := h.takeAll hinput
  rw [Program.ofFunction_eq, Program.ofFunction_eq, h.unread_of_ne hinput]
  exact ⟨(htaken.writeOrSkip ..).writeOrSkip .., rfl⟩

/-! ## Lines -/

namespace Execution

variable {host : Host}

theorem echoes_runProgram (hprograms : host.programs.Ignore row) (h : m.Echoed row echo n)
    (shell : Shell) (command : Command) (path : String) (streams : Streams)
    (hinput : row ≠ streams.input) (process : Nat) :
    Echoes row echo (runProgram host shell command path streams process m)
      (runProgram host shell command path streams process n) := by
  simp only [runProgram]
  obtain ⟨fault, hfirst, hsecond⟩ | ⟨⟨after, ending⟩, ⟨final, _⟩, hfirst, hsecond, hafter, rfl⟩ :=
    Programs.echoes_start hprograms h path
      ⟨command.arguments, shell.inherited, shell.directory, streams, process, host.process, []⟩
      hinput
  · rw [hfirst, hsecond]
    exact echoes_endWith h ..
  · rw [hfirst, hsecond]
    exact ⟨hafter, rfl⟩

theorem echoes_single (hprograms : host.programs.Ignore row) (h : m.Echoed row echo n)
    (hinput : row ≠ host.streams.input) (shell : Shell) (command : Command) :
    Echoes row echo (single host shell m command) (single host shell n command) := by
  obtain ⟨opened, final, result, hfirst, hsecond, hopened⟩ :=
    (Redirection.echoes_openAll h shell.directory command.redirects).exists_eq
  simp only [single, hfirst, hsecond]
  cases result with
  | error e => exact ⟨hopened, rfl⟩
  | ok redirection =>
      simp only [hopened.volume_eq]
      cases Builtin.ofName? command.program with
      | some b =>
          have hrun := Builtin.echoes_run hopened b command.operands
            (redirection.apply host.streams) shell
          exact hrun.map fun changed => (changed.1, (.ok changed.2 : Except ShellError Flow))
      | none =>
          cases Lookup.find? opened.volume shell.directory shell.environment command.program with
          | none => exact ⟨hopened.printOrSkip .., rfl⟩
          | some path =>
              dsimp only
              split
              · exact ⟨hopened, rfl⟩
              · have hrun := echoes_runProgram hprograms hopened shell command path
                  (redirection.apply host.streams) hinput (host.process + 1)
                exact hrun.map fun ending => (shell, (waitFor ending).map Flow.proceed)

theorem echoes_stage (hprograms : host.programs.Ignore row) (h : m.Echoed row echo n)
    (shell : Shell) (command : Command) (streams : Streams) (hinput : row ≠ streams.input)
    (process : Nat) :
    Echoes row echo (stage host shell command streams process m)
      (stage host shell command streams process n) := by
  obtain ⟨opened, final, result, hfirst, hsecond, hopened⟩ :=
    (Redirection.echoes_openAll h shell.directory command.redirects).exists_eq
  simp only [stage, hfirst, hsecond]
  cases result with
  | error e => exact echoes_endWith hopened ..
  | ok redirection =>
      simp only [hopened.volume_eq]
      cases Builtin.ofName? command.program with
      | some b => exact echoes_runBuiltin hopened ..
      | none =>
          cases Lookup.find? opened.volume shell.directory shell.environment command.program with
          | none => exact echoes_endWith hopened ..
          | some path =>
              dsimp only
              split
              · exact echoes_endWith hopened ..
              · exact echoes_runProgram hprograms hopened shell command path
                  (redirection.apply streams) hinput process

/-- The pipes of a pipeline stand in new rows, so none of them is the stream. -/
theorem echoes_stages (hprograms : host.programs.Ignore row) (h : m.Echoed row echo n)
    (shell : Shell) (process input : Nat) (hinput : row ≠ input) (commands : List Command) :
    Echoes row echo (stages host shell process input commands m)
      (stages host shell process input commands n) := by
  induction commands generalizing process input m n with
  | nil => exact ⟨h, rfl⟩
  | cons command rest ih =>
      cases rest with
      | nil =>
          have hstage := echoes_stage hprograms h shell command
            { host.streams with input := input } hinput process
          exact hstage.map fun ending => [ending]
      | cons next rest =>
          have hpipe : row ≠ m.channels.length := Nat.ne_of_lt h.lt_length
          simp only [stages, h.length_eq, h.patience_eq]
          apply echoes_patiently
          · intro a b hab
            obtain ⟨after, final, ending, hfirst, hsecond, hafter⟩ :=
              (echoes_stage hprograms (hab.addChannel (.stream .pipe)).1 shell command
                ⟨input, m.channels.length, host.streams.error⟩ hinput process).exists_eq
            have hleft := ((hafter.closeFrom (Nat.lt_succ_of_lt h.lt_length)).cutIfStarved
              hinput hpipe).withPatience m.patience
            obtain ⟨hrest, hendings⟩ := ih hleft (process + 1) m.channels.length hpipe
            rw [hfirst, hsecond]
            exact ⟨hrest.reopenIfBlocked h hinput hpipe, congrArg (List.cons ending) hendings⟩
          · intro p q hpq
            exact hpq.1.wanted?_eq hinput hpipe
          · exact h

theorem echoes_pipeline (hprograms : host.programs.Ignore row) (h : m.Echoed row echo n)
    (hinput : row ≠ host.streams.input) (shell : Shell) (commands : List Command) :
    Echoes row echo (pipeline host shell m commands) (pipeline host shell n commands) := by
  match commands with
  | [] => exact ⟨h, rfl⟩
  | [command] => exact echoes_single hprograms h hinput shell command
  | first :: next :: rest =>
      have hstages := echoes_stages hprograms h shell (host.process + 1) host.streams.input hinput
        (first :: next :: rest)
      exact hstages.map fun endings => (shell, (waitForAll endings).map Flow.proceed)

/-- A line does the same whatever else was shown before, if the programs do. -/
theorem echoes_runLine (hprograms : host.programs.Ignore row) (h : m.Echoed row echo n)
    (hinput : row ≠ host.streams.input) (shell : Shell) (line : String) :
    Echoes row echo (runLine host shell m line) (runLine host shell n line) := by
  obtain ⟨hafter, hresult⟩ :=
    echoes_pipeline hprograms h hinput shell (parseLine line)
  simp only [runLine, execute, h.length_eq]
  exact ⟨hafter.closeFrom h.lt_length, hresult⟩

/-- The commands on a line do the same whatever else was shown on the standard output before. -/
def IgnoresShown (host : Host) (shell : Shell) (m : Machine) (line : String) : Prop :=
  ∀ echo n, m.Echoed host.streams.output echo n →
    Echoes host.streams.output echo (runLine host shell m line) (runLine host shell n line)

end Execution

end LineShell
