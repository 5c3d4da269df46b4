import LineShell.Proofs.BuiltinOutput
import LineShell.Proofs.PipelineIsolation
import LineShell.Proofs.RedirectedStreams

/-!
# The course of a stage

A program that only reads its input to the end and writes to its two streams is a filter: a function
from its arguments and all of its input. On a machine whose programs are filters the course of a
stage is a function of the octets it receives, and so is what it sends to its output. A stage that
does not come to run sends nothing.

## Implementation notes

`Course` tells by how far the stage comes what it sends, and the machine and the ending it leaves.
What it sends reaches the pipe behind it unless a redirect is for its output, which is
`Command.passesOn`.
-/

namespace LineShell

/-- What is written to the two streams for all of the input, and the status. -/
abbrev Filter := Bytes → Bytes × Bytes × Nat

/-- The filter that a program is with some arguments, by the name of the program. -/
abbrev Filters := String → Option (List String → Filter)

/-- Programs that are filters. -/
def Programs.ofFilters (filters : Filters) : Programs := fun name =>
  (filters name).map Program.ofFunction

/-- What was opened at a path runs as a filter: that of a program, or of the interpreter that a
script names. -/
inductive Startable.Runs (filters : Filters) (cwd : WorkingDirectory) (m : Machine) :
    Startable → String → List String → Filter → Prop
  | program {name path : String} {arguments : List String} {program : List String → Filter}
      (known : filters name = some program) :
      Runs filters cwd m (.program name) path arguments (program arguments)
  | script {contents : Bytes} {header : ScriptHeader} {interpreter : Startable} {path : String}
      {arguments : List String} {filter : Filter}
      (names : ScriptHeader.ofContents? contents = some header)
      (opens : m.openInterpreter cwd (Utf8.lossy header.interpreter) = .ok interpreter)
      (runs : Runs filters cwd m interpreter (Utf8.lossy header.interpreter)
        (Utf8.lossy header.interpreter ::
          (header.argument.map Utf8.lossy).toList ++ path :: arguments.tail) filter) :
      Runs filters cwd m (.script contents) path arguments filter

/-- The machine after a filter: its input is read to the end, and both streams are written. -/
def Machine.afterFilter (m : Machine) (streams : Streams) (output error : Bytes) : Machine :=
  ((m.takeAll streams.input).1.writeOrSkip streams.output output).writeOrSkip streams.error error

theorem Program.ofFunction_eq (program : List String → Filter) (call : Call) (m : Machine) :
    Program.ofFunction program call m =
      let answer := program call.arguments (m.unread call.streams.input).1
      (m.afterFilter call.streams answer.1 answer.2.1, .exited answer.2.2) := by
  have hwrite (m : Machine) (row : Nat) (written : Bytes) :
      (m.write row written).toOption.getD m = m.writeOrSkip row written := by
    simp only [Machine.writeOrSkip]
    cases m.write row written <;> rfl
  simp only [Program.ofFunction, Machine.afterFilter, hwrite]
  rfl

/-- Whatever can be started runs as a filter. -/
theorem Programs.exists_runs_of_startWithin {filters : Filters} {depth : Nat}
    {startable : Startable} {path : String} {call : Call} {m : Machine} {left : Machine × Ending}
    (hstart : (ofFilters filters).startWithin depth startable path call m = .ok left) :
    ∃ filter, startable.Runs filters call.directory m path call.arguments filter ∧
      left = Program.ofFunction (fun _ => filter) call m := by
  fun_induction startWithin (ofFilters filters) depth startable path call m with
  | case1 depth path call m name program hprogram =>
      obtain ⟨filter, hfilter, rfl⟩ := Option.map_eq_some_iff.mp hprogram
      exact ⟨filter call.arguments, .program hfilter, (Except.ok.inj hstart).symm⟩
  | case2 => simp at hstart
  | case3 => simp at hstart
  | case4 => simp at hstart
  | case5 => simp at hstart
  | case6 path call m contents header hheader interpreter startable hopen depth ih =>
      obtain ⟨filter, hruns, hleft⟩ := ih hstart
      exact ⟨filter, .script hheader hopen hruns, hleft⟩

/-- What a command leaves for the next one of what it sends: nothing when its output is
redirected. -/
def Command.passesOn (command : Command) (sent : Bytes) : Bytes :=
  if command.redirects.any (·.target = .output) then [] else sent

namespace Execution

/-- The redirects of a command are open, and its streams lead where they say. -/
structure IsRedirected (shell : Shell) (command : Command) (m opened : Machine)
    (redirection : Redirection) : Prop where
  opens : Redirection.openAll m shell.directory command.redirects = (opened, .ok redirection)
  output : Redirection.none.LeadsTo m shell.directory command.redirects .output opened
    redirection.output
  error : Redirection.none.LeadsTo m shell.directory command.redirects .error opened
    redirection.error

/-- What a stage finds on its input when its redirects are open, or one of them was refused. -/
def standardInput (shell : Shell) (command : Command) (input : Nat) (m : Machine) : Bytes :=
  ((Redirection.openAll m shell.directory command.redirects).1.unread input).1

/-- What a stage that receives some octets sends to its output, and what it leaves, by how far it
comes. -/
inductive Course (filters : Filters) (host : Host) (shell : Shell) (command : Command)
    (streams : Streams) (process : Nat) (m : Machine) (received : Bytes) :
    Bytes → Machine × Ending → Prop
  | refused {opened : Machine} {e : ShellError}
      (refused : Redirection.openAll m shell.directory command.redirects = (opened, .error e)) :
      Course filters host shell command streams process m received []
        (opened.endWith streams.error (errorLine e) (.exited 1))
  | builtin {opened : Machine} {redirection : Redirection} {b : Builtin}
      (redirected : IsRedirected shell command m opened redirection)
      (internal : Builtin.ofName? command.program = some b) :
      Course filters host shell command streams process m received
        (octets (b.outputText command.operands shell opened))
        (runBuiltin b shell command.operands (redirection.apply streams) opened)
  | unknown {opened : Machine} {redirection : Redirection}
      (redirected : IsRedirected shell command m opened redirection)
      (external : Builtin.ofName? command.program = none)
      (missing : Lookup.find? opened.volume shell.directory shell.environment command.program =
        none) :
      Course filters host shell command streams process m received []
        (opened.endWith (redirection.apply streams).error (notFoundLine command.program)
          (.exited notFound))
  | nul {opened : Machine} {redirection : Redirection} {path : String}
      (redirected : IsRedirected shell command m opened redirection)
      (found : IsFound shell command m opened redirection path)
      (nul : (path :: command.arguments).any hasNul = true) :
      Course filters host shell command streams process m received []
        (opened.endWith (redirection.apply streams).error
          (errorLine (.nulByte command.program)) (.exited notFound))
  | notStarted {opened : Machine} {redirection : Redirection} {path : String} {e : Errno}
      (redirected : IsRedirected shell command m opened redirection)
      (found : IsFound shell command m opened redirection path)
      (clean : (path :: command.arguments).any hasNul = false)
      (refused : (Programs.ofFilters filters).start path
        (stageCall host shell command (redirection.apply streams) process) opened = .error e) :
      Course filters host shell command streams process m received []
        (opened.endWith (redirection.apply streams).error
          (command.program ++ ": " ++ e.processReport ++ "\n") (.exited notFound))
  | program {opened : Machine} {redirection : Redirection} {path : String} {startable : Startable}
      {filter : Filter} {output error : Bytes} {code : Nat}
      (redirected : IsRedirected shell command m opened redirection)
      (found : IsFound shell command m opened redirection path)
      (clean : (path :: command.arguments).any hasNul = false)
      (opens : opened.openToRun shell.directory path = .ok startable)
      (runs : startable.Runs filters shell.directory opened path command.arguments filter)
      (answers : filter received = (output, error, code)) :
      Course filters host shell command streams process m received output
        (opened.afterFilter (redirection.apply streams) output error, .exited code)

variable {filters : Filters} {host : Host} {shell : Shell} {command : Command}
  {streams : Streams} {process pipe : Nat} {m opened : Machine} {redirection : Redirection}

theorem isRedirected_of_openAll
    (hopens : Redirection.openAll m shell.directory command.redirects = (opened, .ok redirection)) :
    IsRedirected shell command m opened redirection where
  opens := hopens
  output := Redirection.leadsTo_openAll (show Target.output.isStream from rfl) hopens
  error := Redirection.leadsTo_openAll (show Target.error.isStream from rfl) hopens

/-- A program that was found takes its course, whether it can be started or not. -/
theorem exists_course_of_runProgram (hfilters : host.programs = .ofFilters filters)
    {path : String} (hredirected : IsRedirected shell command m opened redirection)
    (hfound : IsFound shell command m opened redirection path)
    (hclean : (path :: command.arguments).any hasNul = false) :
    ∃ sent, Course filters host shell command streams process m (opened.unread streams.input).1 sent
      (runProgram host shell command path (redirection.apply streams) process opened) := by
  simp only [runProgram, hfilters]
  split
  case h_1 after ending hstart =>
    have hwithin := hstart
    simp only [Programs.start] at hwithin
    split at hwithin
    · simp at hwithin
    · split at hwithin
      · simp at hwithin
      · rename_i startable hopens
        obtain ⟨filter, hruns, hleft⟩ := Programs.exists_runs_of_startWithin hwithin
        rw [hleft, Program.ofFunction_eq]
        exact ⟨_, .program hredirected hfound hclean hopens hruns rfl⟩
  case h_2 e hrefused => exact ⟨[], .notStarted hredirected hfound hclean hrefused⟩

/-- A stage takes its course. -/
theorem exists_course (hfilters : host.programs = .ofFilters filters) (shell : Shell)
    (command : Command) (streams : Streams) (process : Nat) (m : Machine) :
    ∃ sent, Course filters host shell command streams process m
      (standardInput shell command streams.input m) sent
      (stage host shell command streams process m) := by
  simp only [stage]
  split
  case h_1 opened e hrefused => exact ⟨[], .refused hrefused⟩
  case h_2 opened redirection hopens =>
    have hredirected := isRedirected_of_openAll hopens
    split
    case h_1 b hbuiltin => exact ⟨_, .builtin hredirected hbuiltin⟩
    case h_2 hexternal =>
      split
      case h_1 hmissing => exact ⟨[], .unknown hredirected hexternal hmissing⟩
      case h_2 path hfound =>
        have found : IsFound shell command m opened redirection path :=
          ⟨hopens, hexternal, hfound⟩
        split
        case isTrue hnul => exact ⟨[], .nul hredirected found hnul⟩
        case isFalse hclean =>
          have hnone := Bool.eq_false_iff.mpr hclean
          simp only [standardInput, hopens]
          exact exists_course_of_runProgram hfilters hredirected found hnone

namespace IsRedirected

variable (h : IsRedirected shell command m opened redirection) (hpipe : pipe < m.channels.length)
include h hpipe

theorem keepsRow : Machine.KeepsRow pipe m opened := by
  have hkeeps := Redirection.keepsRow_openAll hpipe shell.directory command.redirects
  rwa [h.opens] at hkeeps

/-- The error stream leads away from a pipe also when it is redirected. -/
theorem error_ne (herror : streams.error ≠ pipe) : (redirection.apply streams).error ≠ pipe := by
  simp only [Redirection.apply]
  rcases h.error.none_or_new with ⟨hnone, -⟩ | ⟨row, hrow, hnew, -⟩
  · rwa [hnone]
  · rw [hrow]
    exact Nat.ne_of_gt (Nat.lt_of_lt_of_le hpipe hnew)

/-- A pipe gets what the command passes on. -/
theorem share_eq (houtput : streams.output = pipe) (sent : Bytes) :
    (redirection.apply streams).share pipe sent = command.passesOn sent := by
  simp only [Streams.share, Redirection.apply, Command.passesOn]
  rcases h.output.none_or_new with ⟨hnone, hothers⟩ | ⟨row, hrow, hnew, hredirect⟩
  · have hnot : command.redirects.any (·.target = .output) = false := by
      simpa using hothers
    simp [hnone, hnot, houtput]
  · have hany : command.redirects.any (·.target = .output) = true := by
      simpa using hredirect
    have hne : row ≠ pipe := Nat.ne_of_gt (Nat.lt_of_lt_of_le hpipe hnew)
    simp [hrow, hany, hne]

end IsRedirected

theorem passesOn_nil (command : Command) : command.passesOn [] = [] := by
  simp [Command.passesOn]

/-- Of all that a stage does, a pipe for its output gets what the command passes on. -/
theorem Course.passes {received sent : Bytes} {left : Machine × Ending}
    (h : Course filters host shell command streams process m received sent left)
    (hpipe : pipe < m.channels.length) (hinput : streams.input ≠ pipe)
    (houtput : streams.output = pipe) (herror : streams.error ≠ pipe) :
    Machine.Passes pipe m (command.passesOn sent) left.1 := by
  have hreport {opened : Machine} {redirection : Redirection}
      (hredirected : IsRedirected shell command m opened redirection) (text : String)
      (ending : Ending) :
      Machine.Passes pipe m (command.passesOn [])
        (opened.endWith (redirection.apply streams).error text ending).1 := by
    rw [passesOn_nil, Machine.endWith_fst]
    exact ((hredirected.keepsRow hpipe).trans
      (Machine.keepsRow_writeOrSkip (Ne.symm (hredirected.error_ne hpipe herror)) _)).passes
  cases h with
  | @refused opened e hrefused =>
      rw [passesOn_nil, Machine.endWith_fst]
      have hopened := Redirection.keepsRow_openAll hpipe shell.directory command.redirects
      rw [hrefused] at hopened
      exact (hopened.trans (Machine.keepsRow_writeOrSkip (Ne.symm herror) _)).passes
  | @builtin opened redirection b hredirected hinternal =>
      have hpasses := Builtin.passes_runBuiltin b command.operands shell opened
        (hredirected.error_ne hpipe herror)
      rw [hredirected.share_eq hpipe houtput] at hpasses
      exact (hredirected.keepsRow hpipe).passes.trans hpasses
  | unknown hredirected => exact hreport hredirected _ _
  | nul hredirected => exact hreport hredirected _ _
  | notStarted hredirected => exact hreport hredirected _ _
  | @program opened redirection path startable filter output error code hredirected =>
      have htaken : Machine.KeepsRow pipe m
          (opened.takeAll (redirection.apply streams).input).1 :=
        (hredirected.keepsRow hpipe).trans (Machine.keepsRow_takeAll (Ne.symm hinput))
      have hwritten := Machine.passes_output (opened.takeAll (redirection.apply streams).input).1
        (redirection.apply streams) pipe sent
      rw [hredirected.share_eq hpipe houtput] at hwritten
      have hboth := htaken.passes.trans hwritten
      exact hboth.then_keeps
        (Machine.keepsRow_writeOrSkip (Ne.symm (hredirected.error_ne hpipe herror)) error)

end Execution

end LineShell
