import LineShell.Errno

/-!
# What can fail

`FileFault` is the reason why a file operation did not happen. `ShellError` is the reason why a
command line was given up; the loop reports it and goes on with the next line. Each has one
function that words it.
-/

namespace LineShell

/-- Why an operation on files or streams did not happen. -/
inductive FileFault where
  /-- The machine refused. -/
  | refused (e : Errno)
  /-- A path holds a NUL character, which no path may. -/
  | nulInPath
  /-- A file that should hold text is not valid UTF-8. -/
  | notText
  /-- A reader gave up with a reason of its own. -/
  | gaveUp (reason : String)
  deriving DecidableEq, Repr

/-- The sentence that reports a file fault. -/
def FileFault.message : FileFault → String
  | .refused e => e.fileReport
  | .nulInPath => "file name contained an unexpected NUL byte"
  | .notText => "stream did not contain valid UTF-8"
  | .gaveUp reason => reason

/-- Why a command line was given up. -/
inductive ShellError where
  /-- The file of a redirect could not be opened. -/
  | redirectOpen (path : String) (fault : FileFault)
  /-- No process could be started for a program. -/
  | spawn (program : String) (e : Errno)
  /-- Arguments of programs cannot hold the NUL character. -/
  | nulByte (program : String)
  | pipe (e : Errno)
  | wait (e : Errno)
  /-- The mode of the terminal could not be read or set. -/
  | terminal (e : Errno)
  | file (fault : FileFault)
  deriving DecidableEq, Repr

/-- The sentence that reports a shell error. -/
def ShellError.message : ShellError → String
  | .redirectOpen path fault => path ++ ": " ++ fault.message
  | .spawn program e => program ++ ": cannot spawn process: " ++ e.processReport
  | .nulByte program => program ++ ": argument contains a NUL byte"
  | .pipe e => "cannot create pipe: " ++ e.processReport
  | .wait e => "cannot wait for child process: " ++ e.processReport
  | .terminal e => "terminal: " ++ e.processReport
  | .file fault => fault.message

end LineShell
