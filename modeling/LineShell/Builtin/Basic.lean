import LineShell.History
import LineShell.Environment
import LineShell.Machine

/-!
# Commands built into the shell

A builtin runs within the shell: it sees the shell's variables and may change its current directory
and history, but no other part of it. What it has to tell goes to its two streams.
-/

namespace LineShell

/-- The commands built into the shell. -/
inductive Builtin where
  | exit
  | echo
  | type
  | pwd
  | cd
  | history
  deriving DecidableEq, Repr

namespace Builtin

/-- All builtins, in the order in which they are listed. -/
def all : List Builtin := [.exit, .echo, .type, .pwd, .cd, .history]

/-- The name of a builtin. -/
def name : Builtin → String
  | .exit => "exit"
  | .echo => "echo"
  | .type => "type"
  | .pwd => "pwd"
  | .cd => "cd"
  | .history => "history"

/-- The names of all builtins. -/
def names : List String := all.map name

/-- The builtin of a name. -/
def ofName? (text : String) : Option Builtin := all.find? (·.name == text)

@[simp] theorem ofName?_name (b : Builtin) : ofName? b.name = some b := by
  cases b <;> decide

end Builtin

/-- What the loop does after a line. -/
inductive Flow where
  /-- Read the next line; the code is the status of the last command. -/
  | proceed (code : Int)
  /-- End the session with this status. -/
  | exit (code : Int)
  deriving DecidableEq, Repr

/-- The code that a flow carries. -/
def Flow.code : Flow → Int
  | .proceed code => code
  | .exit code => code

/-- What belongs to a shell alone. -/
structure Shell where
  /-- The variables that the shell itself consults. -/
  environment : Environment
  /-- The variables that programs are started with. -/
  inherited : Environment
  directory : WorkingDirectory
  history : History
  deriving DecidableEq, Repr

end LineShell
