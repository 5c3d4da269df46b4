import LineShell.Editor
import LineShell.Execution

/-!
# Sessions

A session loads the history, then reads and runs one line after the other until a line asks to
exit, the input ends or fails, or a signal ends the shell. Unless it was a signal, the history is
saved at the end. The terminal is in raw mode while a line is read and in its own mode otherwise.

## Implementation notes

`turn` is one round: a line is read and, if there is one, run. Every turn takes at least one read
off the input or ends the session, so as many turns as there are reads, and one more, are enough
for every session.
-/

namespace LineShell

/-- What is chosen when a session starts. -/
structure Settings where
  prompt : String
  /-- Where the history is kept; `$HISTFILE` if nothing is chosen. -/
  historyFile : Option String
  /-- Lines are read from a terminal that is to be in raw mode meanwhile. -/
  interactive : Bool
  /-- Keys are read from the standard input, which the commands read from as well, and the editor
  shows the line on the standard output. -/
  standardStreams : Bool
  deriving DecidableEq, Repr

/-- The prompt of a session that chooses none. -/
def defaultPrompt : String := "$ "

/-- A session between two lines. -/
structure Session where
  shell : Shell
  machine : Machine
  input : List Read
  /-- What the editor has shown so far. -/
  shown : String
  /-- The terminal modes in which lines were read. -/
  modes : List TerminalMode
  deriving DecidableEq, Repr

/-- How a session ended. -/
inductive SessionEnd where
  | finished (code : Int)
  | inputFailed (fault : FileFault)
  | killed (signal : Nat)
  deriving DecidableEq, Repr

/-- What the shell still says on its error stream when a session has ended. -/
def SessionEnd.report : SessionEnd → String
  | .inputFailed fault => "Error: " ++ fault.message ++ "\n"
  | .finished _ | .killed _ => ""

namespace Session

/-- The signal that interrupts a process. -/
def interruptSignal : Nat := 2

/-- Signals that do not end the shell: no signal at all, those that a process survives unless it
asks for more, and the one that tells a writer that nobody reads, which the shell ignores. -/
def harmlessSignals : List Nat := [0, 13, 17, 18, 19, 20, 21, 22, 23, 28]

/-- Signals of faults in memory. The shell looks into the first of each kind, finds no fault of its
own and goes on, but no longer guards against that kind. -/
def faultSignals : List Nat := [7, 11]

/-- The first signal that ends a process which survives some kinds always and others once. -/
def firstFatal? (always : Nat → Bool) : List Nat → List Nat → Option Nat
  | _, [] => none
  | once, signal :: rest =>
    if always signal then firstFatal? always once rest
    else if once.contains signal then firstFatal? always (once.erase signal) rest
    else some signal

/-- The signal that ends the shell, if one has come. An interactive shell survives interrupts. -/
def fatal? (settings : Settings) (host : Host) (m : Machine) : Option Nat :=
  firstFatal?
    (fun signal => harmlessSignals.contains signal ||
      settings.interactive && signal == interruptSignal)
    faultSignals (m.signals.filterMap fun (process, signal) =>
      if process == host.process then some signal else none)

/-- Octets that a run of reads will deliver. -/
def delivered (input : List Read) : Bytes :=
  input.filterMap fun
    | .octet value => some value
    | _ => none

/-- The input of the shell as a channel: a file that goes on where the shell stopped reading. -/
def inputChannel (m : Machine) (row : Nat) (left : Bytes) : Channel :=
  match m.channel? row with
  | some (.tape contents _) => .tape contents (contents.length - left.length)
  | _ => .tape left 0

/-- Lets commands read from the input of the shell. -/
def lend (settings : Settings) (host : Host) (s : Session) : Machine :=
  if settings.standardStreams then
    s.machine.setChannel host.streams.input
      (inputChannel s.machine host.streams.input (delivered s.input))
  else s.machine

/-- Reads without some octets that come first. A read that would have been interrupted or failed
before such an octet is never attempted. -/
def dropOctets : Nat → List Read → List Read
  | 0, input => input
  | _ + 1, [] => []
  | n + 1, .octet _ :: rest => dropOctets n rest
  | n + 1, .interrupted :: rest => dropOctets (n + 1) rest
  | n + 1, .failed _ :: rest => dropOctets (n + 1) rest

/-- The input that commands have left. -/
def reclaim (settings : Settings) (host : Host) (input : List Read) (m : Machine) : List Read :=
  if settings.standardStreams then
    dropOctets ((delivered input).length - (m.unread host.streams.input).1.length) input
  else input

/-- The mode of the terminal while a line is read. -/
def readingMode (settings : Settings) (m : Machine) : Option TerminalMode :=
  if settings.interactive then m.terminal.map TerminalMode.raw else m.terminal

/-- Reads a line. -/
def readLine (settings : Settings) (host : Host) (s : Session) : Session × ReadOutcome :=
  let completer : Completer := ⟨Builtin.names, s.shell.environment.searchPath⟩
  let editor : Editor :=
    ⟨settings.prompt, completer.complete s.machine.volume s.shell.directory⟩
  let reading := { s.machine with terminal := readingMode settings s.machine }
  let result := editor.readLine s.shell.history s.input
  let restored := { reading with terminal := s.machine.terminal }
  ({ shell := { s.shell with history := result.history }
     machine :=
      if settings.standardStreams then restored.printOrSkip host.streams.output result.shown
      else restored
     input := result.rest
     shown := s.shown ++ result.shown
     modes := s.modes ++ reading.terminal.toList }, result.outcome)

/-- Records and runs a line. -/
def runLine (settings : Settings) (host : Host) (s : Session) (line : String) :
    Session × Option SessionEnd :=
  let shell := { s.shell with history := s.shell.history.add line }
  let (m, shell, result) := Execution.runLine host shell (s.lend settings host) line
  let after : Session :=
    { s with shell := shell, machine := m, input := reclaim settings host s.input m }
  match fatal? settings host m with
  | some signal => (after, some (.killed signal))
  | none =>
    match result with
    | .ok (.exit code) => (after, some (.finished code))
    | .ok (.proceed _) => (after, none)
    | .error e =>
      ({ after with machine := m.printOrSkip host.streams.error (Execution.errorLine e) }, none)

/-- Reads a line and runs it. -/
def turn (settings : Settings) (host : Host) (s : Session) : Session × Option SessionEnd :=
  match s.readLine settings host with
  | (s, .line line) => s.runLine settings host line
  | (s, .interrupted) => (s, none)
  | (s, .endOfInput) => (s, some (.finished 0))
  | (s, .failed fault) => (s, some (.inputFailed fault))

/-- Takes turns until the session ends, a given number at most. -/
def turns (settings : Settings) (host : Host) : Nat → Session → Session × SessionEnd
  | 0, s => (s, .finished 0)
  | n + 1, s =>
    match s.turn settings host with
    | (s, some ending) => (s, ending)
    | (s, none) => turns settings host n s

/-- The file that keeps the history. -/
def historyFile (settings : Settings) (shell : Shell) : Option String :=
  settings.historyFile.or shell.environment.historyFile

/-- Loads the history. A file that cannot be read counts as missing. -/
def loadHistory (file : Option String) (s : Session) : Session :=
  match file with
  | none => s
  | some path =>
    match s.shell.history.loadInitial s.machine.volume s.shell.directory path with
    | .ok history => { s with shell := { s.shell with history := history } }
    | .error _ => s

/-- Saves the history, if the file can be written. -/
def saveHistory (file : Option String) (s : Session) : Session :=
  match file with
  | none => s
  | some path =>
    match s.shell.history.save s.machine s.shell.directory path with
    | (m, .ok history) => { s with machine := m, shell := { s.shell with history := history } }
    | (m, .error _) => { s with machine := m }

/-- Runs a session from loading the history to saving it. -/
def run (settings : Settings) (host : Host) (s : Session) : Session × SessionEnd :=
  let file := historyFile settings s.shell
  match turns settings host (s.input.length + 1) (loadHistory file s) with
  | (s, .killed signal) => (s, .killed signal)
  | (s, ending) => (saveHistory file s, ending)

end Session

end LineShell
