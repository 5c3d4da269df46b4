/-!
# Variables

A shell consults a fixed set of variables, captured when it starts. A search path, a home
directory or a history file that is set to the empty text counts as not set.
-/

namespace LineShell

/-- Variables with their values; of two entries for one name the first counts. -/
structure Environment where
  entries : List (String × String)
  deriving DecidableEq, Repr

namespace Environment

/-- No variables at all. -/
def empty : Environment := ⟨[]⟩

/-- The variables of a list; a later entry replaces an earlier one of the same name. -/
def ofList (entries : List (String × String)) : Environment := ⟨entries.reverse⟩

/-- Value of a variable. -/
def get? (env : Environment) (name : String) : Option String :=
  env.entries.lookup name

/-- Sets a variable or replaces its value. -/
def set (env : Environment) (name value : String) : Environment :=
  ⟨(name, value) :: env.entries.filter (·.1 != name)⟩

/-- Value of a variable, unless it is the empty text. -/
def nonempty? (env : Environment) (name : String) : Option String :=
  (env.get? name).filter (· != "")

/-- The directories searched for programs, separated by colons. -/
def searchPath (env : Environment) : Option String := env.nonempty? "PATH"

/-- The directory that a leading `~` stands for. -/
def home (env : Environment) : Option String := env.nonempty? "HOME"

/-- The file that keeps the history from one session to the next. -/
def historyFile (env : Environment) : Option String := env.nonempty? "HISTFILE"

end Environment

end LineShell
