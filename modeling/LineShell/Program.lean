import LineShell.Environment
import LineShell.Redirection
import LineShell.ScriptHeader

/-!
# Programs and how they are started

A program is a function on the machine: called with arguments, variables, a current directory and
streams it leaves a machine and an ending. The volume knows programs by name only; what they do is
in a table that every definition here takes as a parameter. A script is run by the interpreter that
its first line names, which may be a script again.

## Implementation notes

A program gets rows of the channel table, never a shell, so whatever it is it cannot change a
shell's current directory, variables or history.
-/

namespace LineShell

/-- What a program is called with. -/
structure Call where
  /-- The arguments, the name of the program first. -/
  arguments : List String
  environment : Environment
  directory : WorkingDirectory
  streams : Streams
  process : Nat
  parent : Nat
  /-- Signals that the process is told to ignore. -/
  ignored : List Nat
  deriving DecidableEq, Repr

/-- How a process ended. -/
inductive Ending where
  | exited (code : Nat)
  | killed (signal : Nat)
  deriving DecidableEq, Repr

/-- A process that has not ended and never will by itself: no signal has come. -/
def Ending.goesOn : Ending := .killed 0

/-- The status of a process; a signal counts from 128. -/
def Ending.status : Ending → Int
  | .exited code => code
  | .killed signal => 128 + signal

/-- The signal that a process gets which writes to a stream that nobody reads. It ends every process
that does not ignore it. -/
def brokenPipeSignal : Nat := 13

/-- What a process leaves that says something on a channel as its last words, and how it ends: as it
is about to, unless nobody reads what it says. -/
def Machine.endWith (m : Machine) (row : Nat) (text : String) (ending : Ending) :
    Machine × Ending :=
  match m.print row text with
  | .ok after => (after, ending)
  | .error fault => (m, if fault = .refused .brokenPipe then .killed brokenPipeSignal else ending)

/-- What a call does to the machine. -/
abbrev Program := Call → Machine → Machine × Ending

/-- What the programs of a machine do, by their names. -/
abbrev Programs := String → Option Program

/-- A program that is a function of its arguments and of all its input, and does nothing but write
to its two streams and end with a status. -/
def Program.ofFunction (f : List String → Bytes → Bytes × Bytes × Nat) : Program := fun call m =>
  let (m, input, _) := m.takeAll call.streams.input
  let (output, error, code) := f call.arguments input
  let m := (m.write call.streams.output output).toOption.getD m
  let m := (m.write call.streams.error error).toOption.getD m
  (m, .exited code)

/-- What can be started. -/
inductive Startable where
  | program (name : String)
  | script (contents : Bytes)
  deriving DecidableEq, Repr

namespace Machine

/-- What stands at a path, if it may be run. A file that some process may be changing may not. -/
def openToRun (m : Machine) (cwd : WorkingDirectory) (path : String) : Except Errno Startable :=
  match m.volume.lookUp cwd path .follow with
  | .error (.refused e) => .error e
  | .error _ => .error .noEntry
  | .ok (_, ⟨_, .program name⟩) => .ok (.program name)
  | .ok (_, ⟨serial, .file contents permissions⟩) =>
    if !permissions.mayRun then .error .accessDenied
    else if m.isBeingChanged serial then .error .textBusy
    else .ok (.script contents)
  | .ok _ => .error .accessDenied

/-- What stands at the path of an interpreter. The empty path is the current directory. -/
def openInterpreter (m : Machine) (cwd : WorkingDirectory) (path : String) :
    Except Errno Startable :=
  if path = "" then .error .accessDenied else m.openToRun cwd path

end Machine

namespace Programs

/-- Scripts that name one another as interpreters, at most. -/
def deepestInterpreter : Nat := 5

/-- An argument has fewer octets than this. -/
def longestArgument : Nat := 131072

/-- All arguments and variables together have at most this many octets; each counts two pointers'
worth more than its text. -/
def mostArguments : Nat := 2097152

/-- Runs what was opened at a path. -/
def startWithin (programs : Programs) :
    Nat → Startable → String → Call → Machine → Except Errno (Machine × Ending)
  | depth, startable, path, call, m =>
    match startable with
    | .program name =>
      match programs name with
      | some program => .ok (program call m)
      | none => .error .badFormat
    | .script contents =>
      match ScriptHeader.ofContents? contents with
      | none => .error .badFormat
      | some header =>
        let interpreter := Utf8.lossy header.interpreter
        match m.openInterpreter call.directory interpreter with
        | .error e => .error e
        | .ok startable =>
          match depth with
          | 0 => .error .linkLoop
          | depth + 1 =>
            startWithin programs depth startable interpreter
              { call with
                arguments := interpreter :: (header.argument.map Utf8.lossy).toList ++
                  path :: call.arguments.tail } m

/-- Whether arguments or variables are longer than a process may have. -/
def isTooLong (call : Call) : Bool :=
  let texts := call.arguments ++ call.environment.entries.map fun e => e.1 ++ "=" ++ e.2
  let sizes := texts.map fun text => text.utf8ByteSize + 1
  sizes.any (longestArgument < ·) ||
    mostArguments < sizes.foldl (fun total size => total + size + 8) 0

/-- Starts the file at a path. -/
def start (programs : Programs) (path : String) (call : Call) (m : Machine) :
    Except Errno (Machine × Ending) :=
  if isTooLong call then .error .tooManyArguments
  else match m.openToRun call.directory path with
    | .error e => .error e
    | .ok startable => programs.startWithin deepestInterpreter startable path call m

end Programs

end LineShell
