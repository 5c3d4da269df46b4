import LineShell.Options
import LineShell.Session

/-!
# How the shell is called

The shell takes options for its history file and its prompt, and one for detailed reports, which
change nothing that is shown here. Help goes to the output, a usage fault to the error stream.
-/

namespace LineShell

/-- What the arguments of the shell ask for. -/
inductive Invocation where
  | session (historyFile : Option String) (prompt : String)
  /-- Show a text and end with status zero. -/
  | help (text : String)
  /-- Show a text on the error stream and end with status one. -/
  | usage (text : String)
  deriving DecidableEq, Repr

namespace Invocation

/-- The options of the shell. -/
def grammar : Options.Grammar where
  help := "Usage: minish [--history-file <history-file>] [--prompt <prompt>] [-v]\n\n" ++
    "An interactive shell with pipelines, redirects and tab completion.\n\n" ++
    "Options:\n" ++
    "  --history-file    file to load history from and save it to; defaults to\n" ++
    "                    $HISTFILE.\n" ++
    "  --prompt          prompt shown before each line.\n" ++
    "  -v, --verbose     log debug output to stderr.\n" ++
    "  --help, help      display usage information\n"
  choices :=
    [⟨["--history-file"], true⟩, ⟨["--prompt"], true⟩, ⟨["-v", "--verbose"], false⟩]
  arity := .none
  operandFault _ := none

/-- What arguments ask for. -/
def ofArguments (arguments : List String) : Invocation :=
  match grammar.read arguments with
  | .given given =>
    .session (given.value? "--history-file") ((given.value? "--prompt").getD defaultPrompt)
  | .help text => .help (text ++ "\n")
  | .faulty fault => .usage (fault.message ++ "\nRun minish --help for more information.\n")

end Invocation

end LineShell
