import LineShell.History
import LineShell.Machine

/-!
# History files

A history file holds one line per record. Reading cuts the text at line feeds and drops a carriage
return that stands right before one; what follows the last line feed is a record too, unless it is
empty. Writing puts a line feed behind every line. A failed operation leaves the history as it was.
-/

namespace LineShell.History

/-- A line without the carriage return at its end. -/
def dropReturn (line : List Char) : List Char :=
  if line.getLast? = some '\r' then line.dropLast else line

/-- The records of a text, when some characters of the first one have been read. -/
def recordsFrom (begun : List Char) : List Char → List String
  | [] => if begun.isEmpty then [] else [String.ofList begun.reverse]
  | c :: rest =>
    if c = '\n' then String.ofList (dropReturn begun.reverse) :: recordsFrom [] rest
    else recordsFrom (c :: begun) rest

/-- The records of a text. -/
def records (text : String) : List String := recordsFrom [] text.toList

/-- The text of a history file with these lines. -/
def fileText (lines : List String) : String :=
  lines.foldl (fun text line => text ++ line ++ "\n") ""

/-- Adds the lines of a file. A missing file has none. -/
def load (h : History) (volume : Volume) (cwd : WorkingDirectory) (path : String) :
    Except FileFault History :=
  match volume.readText cwd path with
  | .ok text => .ok (if (records text).isEmpty then h else h.addAll (records text))
  | .error (.refused e) => if e = .noEntry then .ok h else .error (.refused e)
  | .error fault => .error fault

/-- Adds the lines of the history file, and counts all lines as written to it. -/
def loadInitial (h : History) (volume : Volume) (cwd : WorkingDirectory) (path : String) :
    Except FileFault History :=
  match h.load volume cwd path with
  | .ok loaded => .ok { loaded with persisted := loaded.lines.length }
  | .error fault => .error fault

/-- Writes the lines from a position on to a file. -/
def writeFrom (h : History) (m : Machine) (cwd : WorkingDirectory) (path : String)
    (position : Nat) (append : Bool) : Machine × Except FileFault History :=
  match m.openFile cwd path append with
  | .error fault => (m, .error fault)
  | .ok (opened, row) =>
    match opened.print row (fileText (h.lines.drop position)) with
    | .error fault => (opened.closeFrom row, .error fault)
    | .ok written => (written.closeFrom row, .ok { h with persisted := h.lines.length })

/-- Replaces what a file holds by the lines. -/
def save (h : History) (m : Machine) (cwd : WorkingDirectory) (path : String) :
    Machine × Except FileFault History :=
  h.writeFrom m cwd path 0 false

/-- Adds the lines that the history file does not hold yet to the end of a file. -/
def appendTo (h : History) (m : Machine) (cwd : WorkingDirectory) (path : String) :
    Machine × Except FileFault History :=
  h.writeFrom m cwd path h.persisted true

end LineShell.History
