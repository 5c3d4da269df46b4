import LineShell.Toolbox.Cat
import LineShell.Toolbox.Ends
import LineShell.Toolbox.Entries
import LineShell.Toolbox.Grep
import LineShell.Toolbox.Numbers
import LineShell.Toolbox.Rev
import LineShell.Toolbox.Sed
import LineShell.Toolbox.Sh
import LineShell.Toolbox.Sorting
import LineShell.Toolbox.Stty
import LineShell.Toolbox.Tr
import LineShell.Toolbox.Wc

/-!
# The table of programs

What the programs of the standard machine do, by their names.

## Implementation notes

The script interpreter starts other programs, so it takes the table as a parameter. The table at
some depth gives it the table of the next lower depth.
-/

namespace LineShell.Toolbox

/-- The programs that start no others, by name. -/
def simple : List (String × Program) :=
  [("cat", cat), ("sort", awaiting sort), ("rev", rev), ("wc", awaiting wc), ("tr", tr),
   ("head", head),
   ("tail", tail), ("sed", sed), ("grep", grep), ("yes", yes), ("seq", seq),
   ("true", always 0), ("false", always 1), ("mkdir", mkdir), ("mkfifo", mkfifo),
   ("rmdir", rmdir), ("rm", rm), ("stty", stty)]

/-- The table of programs; scripts may start scripts to a depth. -/
def programs : Nat → Programs
  | 0, name => simple.lookup name
  | depth + 1, name =>
    if name = "dash" then some (sh (programs depth)) else simple.lookup name

/-- Scripts that start one another, at most. -/
def deepestScript : Nat := 16

end LineShell.Toolbox
