import LineShell.Builtin.Run
import LineShell.CommandLine
import LineShell.Program

/-!
# Running pipelines

A single command runs in the shell itself when it is a builtin, and as a program otherwise. Every
command of a longer pipeline runs in a process of its own on a copy of the shell, whose changes are
lost; its output goes into a stream that the next command reads. Redirects come after the streams of
the pipeline and take precedence over them.

The shell itself ignores the signal that comes when nobody reads what is written, but processes do
not: whatever a process writes to such a stream, it ends there and says no more.

## Implementation notes

`single` and `stage` differ in what they do with the shell and in how they report. Both open the
redirects first and go no further if that fails. Channels opened for a stage are closed after it,
and those opened for a line after the line.

The shell can report a process that one of the standard signals has ended, but it does not know
the real-time signals: waiting for a process that one of them has ended is an error.
-/

namespace LineShell

/-- What a shell runs on: the programs there are, its own streams and its own process number. -/
structure Host where
  programs : Programs
  streams : Streams
  process : Nat

namespace Execution

/-- The name under which the shell reports. -/
def ownName : String := "minish"

/-- Status of a command that could not be found or started. -/
def notFound : Nat := 127

/-- The line that reports an error of the shell. -/
def errorLine (e : ShellError) : String := ownName ++ ": " ++ e.message ++ "\n"

/-- The line that reports an unknown command. -/
def notFoundLine (program : String) : String := program ++ ": command not found\n"

/-- Whether a text holds a character that no argument of a program may hold. -/
def hasNul (text : String) : Bool := text.toList.contains '\x00'

/-- The standard signals are numbered from one to this. -/
def lastStandardSignal : Nat := 31

/-- What waiting for a process that ended in some way gives: its status, unless the signal that
ended it is unknown to the shell. -/
def waitFor : Ending → Except ShellError Int
  | .exited code => .ok code
  | .killed signal =>
    if signal ≤ lastStandardSignal then .ok (128 + signal) else .error (.wait .invalidArgument)

/-- Runs the file at a path as a program in a process of its own. -/
def runProgram (host : Host) (shell : Shell) (command : Command) (path : String)
    (streams : Streams) (process : Nat) (m : Machine) : Machine × Ending :=
  let call : Call :=
    ⟨command.arguments, shell.inherited, shell.directory, streams, process, host.process, []⟩
  match host.programs.start path call m with
  | .ok (m, ending) => (m, ending)
  | .error e =>
    m.endWith streams.error (command.program ++ ": " ++ e.processReport ++ "\n")
      (.exited notFound)

/-- Runs a builtin in a process of its own, on a copy of the shell. -/
def runBuiltin (b : Builtin) (shell : Shell) (operands : List String) (streams : Streams)
    (m : Machine) : Machine × Ending :=
  match b.execute operands streams shell m with
  | (m, .ok (_, flow)) => (m, .exited (flow.code % 256).toNat)
  | (m, .error failure) =>
    if failure.isUnread then (m, .killed brokenPipeSignal)
    else m.endWith streams.error (failure.message ++ "\n") (.exited 1)

/-- Runs a command on its own. Only here can a builtin change the shell. -/
def single (host : Host) (shell : Shell) (m : Machine) (command : Command) :
    Machine × Shell × Except ShellError Flow :=
  match Redirection.openAll m shell.directory command.redirects with
  | (m, .error e) => (m, shell, .error e)
  | (m, .ok redirection) =>
    let streams := redirection.apply host.streams
    match Builtin.ofName? command.program with
    | some b =>
      let (m, shell, flow) := b.run command.operands streams shell m
      (m, shell, .ok flow)
    | none =>
      match Lookup.find? m.volume shell.directory shell.environment command.program with
      | none =>
        (m.printOrSkip host.streams.output (notFoundLine command.program), shell,
          .ok (.proceed notFound))
      | some path =>
        if (path :: command.arguments).any hasNul then
          (m, shell, .error (.nulByte command.program))
        else
          let (m, ending) :=
            runProgram host shell command path streams (host.process + 1) m
          (m, shell, (waitFor ending).map .proceed)

/-- Runs a command as one stage of a pipeline, on a copy of the shell, and tells how it ended. -/
def stage (host : Host) (shell : Shell) (command : Command) (streams : Streams) (process : Nat)
    (m : Machine) : Machine × Ending :=
  match Redirection.openAll m shell.directory command.redirects with
  | (m, .error e) => m.endWith streams.error (errorLine e) (.exited 1)
  | (m, .ok redirection) =>
    let streams := redirection.apply streams
    match Builtin.ofName? command.program with
    | some b => runBuiltin b shell command.operands streams m
    | none =>
      match Lookup.find? m.volume shell.directory shell.environment command.program with
      | none => m.endWith streams.error (notFoundLine command.program) (.exited notFound)
      | some path =>
        if (path :: command.arguments).any hasNul then
          m.endWith streams.error (errorLine (.nulByte command.program)) (.exited notFound)
        else runProgram host shell command path streams process m

/-- Runs the stages of a pipeline, the first of which reads from a given channel, and tells how each
of them ended. -/
def stages (host : Host) (shell : Shell) (process input : Nat) :
    List Command → Machine → Machine × List Ending
  | [], m => (m, [])
  | [command], m =>
    let (m, ending) := stage host shell command { host.streams with input := input } process m
    (m, [ending])
  | command :: next :: rest, start =>
    let pipe := start.channels.length
    Machine.patiently
      (fun m =>
        let (m, _) := m.addChannel (.stream .pipe)
        let (m, ending) := stage host shell command ⟨input, pipe, host.streams.error⟩ process m
        let m := (m.closeFrom (pipe + 1)).cutIfStarved input pipe
        let (m, endings) := stages host shell (process + 1) pipe (next :: rest)
          { m with patience := start.patience }
        (m.reopenIfBlocked start input pipe, ending :: endings))
      (fun result => result.1.wanted? input pipe) Machine.mostAttempts start

/-- What waiting for all stages of a pipeline gives: the status of the last one, or else the first
error. -/
def waitForAll (endings : List Ending) : Except ShellError Int :=
  endings.foldlM (fun _ ending => waitFor ending) 0

/-- Runs a pipeline, and leaves its channels open. -/
def pipeline (host : Host) (shell : Shell) (m : Machine) :
    List Command → Machine × Shell × Except ShellError Flow
  | [] => (m, shell, .ok (.proceed 0))
  | [command] => single host shell m command
  | commands =>
    let (m, endings) := stages host shell (host.process + 1) host.streams.input commands m
    (m, shell, (waitForAll endings).map .proceed)

/-- Runs a pipeline. -/
def execute (host : Host) (shell : Shell) (m : Machine) (commands : List Command) :
    Machine × Shell × Except ShellError Flow :=
  let (after, shell, result) := pipeline host shell m commands
  (after.closeFrom m.channels.length, shell, result)

/-- Reads and runs a command line. -/
def runLine (host : Host) (shell : Shell) (m : Machine) (line : String) :
    Machine × Shell × Except ShellError Flow :=
  execute host shell m (parseLine line)

end Execution

end LineShell
