import LineShell.Lookup

/-!
# Completing a command name

Candidates for a typed text are the names that begin with it, among the names built into the shell
and the programs in the directories of the search path. One candidate is completed; several are
completed as far as they agree. When they agree no further the bell rings, and if it has rung
before they are listed.

The search path is read anew for every completion.
-/

namespace LineShell

/-- The answer to a request for completion. -/
inductive Completion where
  /-- Text to add to what was typed. -/
  | insert (text : String)
  | bell
  /-- All candidates; the bell rings as well. -/
  | listing (names : List String)
  deriving DecidableEq, Repr

/-- Puts a name in its place among names in increasing order, once. -/
def insertName (name : String) : List String → List String
  | [] => [name]
  | other :: rest =>
    if name < other then name :: other :: rest
    else if other < name then other :: insertName name rest
    else other :: rest

/-- The distinct names of a list in increasing order. -/
def sortedNames (names : List String) : List String := names.foldr insertName []

/-- The characters on which two texts agree from the start. -/
def agreement : List Char → List Char → List Char
  | c :: rest, d :: others => if c = d then c :: agreement rest others else []
  | _, _ => []

/-- The longest text with which all of the names begin. -/
def sharedStart : List String → String
  | [] => ""
  | name :: names =>
    String.ofList (names.foldl (fun shared other => agreement shared other.toList) name.toList)

/-- The names that begin with a text. -/
def startingWith (typed : String) (names : List String) : List String :=
  names.filter fun name => typed.toList.isPrefixOf name.toList

/-- What remains of a name behind the typed text. -/
def remainder (typed name : String) : String :=
  String.ofList (name.toList.drop typed.toList.length)

/-- Completes a text when these are the candidates, in increasing order. -/
def completeAmong (candidates : List String) (typed : String) (bellRang : Bool) : Completion :=
  match candidates with
  | [] => .bell
  | [name] => .insert (remainder typed name ++ " ")
  | names =>
    if typed.toList.length < (sharedStart names).toList.length then
      .insert (remainder typed (sharedStart names))
    else if bellRang then .listing names
    else .bell

/-- Names that are always candidates, and directories that are searched for programs. -/
structure Completer where
  builtins : List String
  searchPath : Option String
  deriving DecidableEq, Repr

namespace Completer

/-- The programs of a directory whose names begin with a text. -/
def programsIn (volume : Volume) (cwd : WorkingDirectory) (typed directory : String) :
    List String :=
  match volume.listDirectory cwd directory with
  | .error _ => []
  | .ok names =>
    (startingWith typed (names.filterMap fun
      | .text name => some name
      | .octets _ => none)).filter fun name => volume.isProgram cwd (Path.join directory name)

/-- The candidates for a text, in increasing order. -/
def candidates (completer : Completer) (volume : Volume) (cwd : WorkingDirectory)
    (typed : String) : List String :=
  let directories := (completer.searchPath.map (piecesOf ':')).getD []
  sortedNames (startingWith typed completer.builtins ++
    directories.flatMap (programsIn volume cwd typed))

/-- Completes a text; `bellRang` tells whether the bell rang for this text before. -/
def complete (completer : Completer) (volume : Volume) (cwd : WorkingDirectory)
    (typed : String) (bellRang : Bool) : Completion :=
  completeAmong (completer.candidates volume cwd typed) typed bellRang

end Completer

theorem mem_insertName {name other : String} {names : List String} :
    other ∈ insertName name names ↔ other = name ∨ other ∈ names := by
  induction names with
  | nil => simp [insertName]
  | cons head rest ih =>
    unfold insertName
    split
    · simp
    · split
      · simp only [List.mem_cons, ih]
        grind
      · rename_i hle hge
        have : name = head := String.le_antisymm hge hle
        simp [this]

theorem mem_sortedNames {name : String} {names : List String} :
    name ∈ sortedNames names ↔ name ∈ names := by
  induction names with
  | nil => simp [sortedNames]
  | cons head rest ih =>
    have : sortedNames (head :: rest) = insertName head (sortedNames rest) := rfl
    rw [this, mem_insertName, ih, List.mem_cons]

end LineShell
