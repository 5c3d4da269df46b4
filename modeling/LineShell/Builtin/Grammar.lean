import LineShell.Options

/-!
# Options of the builtins

Four builtins read options; their grammars and help texts are here. `exit` and `echo` take every
argument as it is.
-/

namespace LineShell.Builtin

open Options

/-- The last lines of every help text. -/
def helpOption (margin : String) : String :=
  "  --help, help" ++ margin ++ "display usage information\n"

/-- The grammar of `pwd`. -/
def pwdGrammar : Grammar where
  help := "Usage: pwd\n\n" ++
    "Print the current working directory to standard output.\n\n" ++
    "Options:\n" ++ helpOption "      "
  choices := []
  arity := .none
  operandFault _ := none

/-- The grammar of `type`. -/
def typeGrammar : Grammar where
  help := "Usage: type [names...]\n\n" ++
    "Tell how each name would be interpreted if used as a command.\n\n" ++
    "Options:\n" ++ helpOption "      "
  choices := []
  arity := .greedy
  operandFault _ := none

/-- The grammar of `cd`. -/
def cdGrammar : Grammar where
  help := "Usage: cd [--] [<target>]\n\n" ++
    "Change the current working directory.\n\n" ++
    "Positional Arguments:\n" ++
    "  target            absolute path, `.`-relative path or `~`-prefixed path.\n" ++
    "                    Defaults to `~`.\n\n" ++
    "Options:\n" ++ helpOption "      "
  choices := []
  arity := .atMostOne
  operandFault _ := none

/-- What is wrong with the count of `history`. -/
def countFault (text : String) : Option String :=
  match Numeral.read .unsigned64 text with
  | .ok _ => none
  | .error fault =>
    some ("Error parsing positional argument 'count' with value '" ++ text ++ "': " ++
      fault.message)

/-- The grammar of `history`. -/
def historyGrammar : Grammar where
  help := "Usage: history [-r <read>] [-w <write>] [-a <append>] [--] [<count>]\n\n" ++
    "Display or persist the command history.\n\n" ++
    "Positional Arguments:\n" ++
    "  count             show only the last N entries.\n\n" ++
    "Options:\n" ++
    "  -r, --read        append the lines of this file to the history.\n" ++
    "  -w, --write       write the whole history to this file.\n" ++
    "  -a, --append      append the lines not yet written to this file.\n" ++
    helpOption "      "
  choices := [⟨["-r", "--read"], true⟩, ⟨["-w", "--write"], true⟩, ⟨["-a", "--append"], true⟩]
  arity := .atMostOne
  operandFault := countFault

end LineShell.Builtin
