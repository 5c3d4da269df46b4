import LineShell.Text.Utf8

/-!
# Paths

A path is a row of parts separated by slashes. This module knows their spelling only: how it is cut
into parts, how two paths are joined, and how `.` and `..` are removed without a look at any
directory.

## Implementation notes

The machine takes a path as octets, and names of directories need not be text. So `RawPath` is a
path of octets, in which the path of a directory can be written whatever its names are. A path that
somebody typed is text; it is read as its octets.
-/

namespace LineShell

/-- Cuts a list at every occurrence of a separator. -/
def cutAt {α : Type} [DecidableEq α] (separator : α) : List α → List (List α)
  | [] => [[]]
  | c :: rest =>
    if c = separator then [] :: cutAt separator rest
    else match cutAt separator rest with
      | [] => [[c]]
      | piece :: pieces => (c :: piece) :: pieces

/-- The pieces of a text between the occurrences of a separator. -/
def piecesOf (separator : Char) (text : String) : List String :=
  (cutAt separator text.toList).map String.ofList

/-- Texts in a row with a separator between neighbours. -/
def joined (separator : String) : List String → String
  | [] => ""
  | [text] => text
  | text :: next :: rest => text ++ separator ++ joined separator (next :: rest)

/-- The name of an entry of a directory, which need not be text. -/
inductive Name where
  | text (name : String)
  | octets (name : Bytes)
  deriving DecidableEq, Repr

namespace Name

/-- The name that some octets spell. -/
def ofOctets (spelling : Bytes) : Name :=
  match Utf8.decode spelling with
  | some name => .text name
  | none => .octets spelling

/-- The octets of a name. -/
def spelling : Name → Bytes
  | .text name => LineShell.octets name
  | .octets name => name

end Name

/-- One part of a path. -/
inductive Path.Part where
  | here
  | above
  | name (name : Name)
  deriving DecidableEq, Repr

/-- The part that a piece between slashes stands for; nothing between two slashes is no part. -/
def Path.Part.ofPiece? (piece : Bytes) : Option Path.Part :=
  if piece = [] then none
  else if piece = [0x2E] then some .here
  else if piece = [0x2E, 0x2E] then some .above
  else some (.name (.ofOctets piece))

/-- A path as the machine takes it. -/
abbrev RawPath := Bytes

namespace RawPath

/-- What separates the parts of a path. -/
def slash : UInt8 := 0x2F

/-- Paths that start from the root. -/
def isAbsolute (path : RawPath) : Bool := path.head? == some slash

/-- Paths that name a directory by a slash at their end. -/
def endsInSlash (path : RawPath) : Bool := path.getLast? == some slash

/-- The parts between the slashes of a path. -/
def parts (path : RawPath) : List Path.Part :=
  (cutAt slash path).filterMap Path.Part.ofPiece?

/-- One path followed from where another one leads. -/
def join (base path : RawPath) : RawPath :=
  if isAbsolute path then path
  else if base = [] ∨ endsInSlash base then base ++ path
  else base ++ slash :: path

/-- The names that remain when every `..` takes the name before it away. -/
def collapse : List Name → List Path.Part → List Name
  | names, [] => names
  | names, .here :: rest => collapse names rest
  | names, .above :: rest => collapse names.dropLast rest
  | names, .name name :: rest => collapse (names ++ [name]) rest

/-- Names with slashes between them. -/
def joinedNames : List Name → RawPath
  | [] => []
  | [name] => name.spelling
  | name :: next :: rest => name.spelling ++ slash :: joinedNames (next :: rest)

/-- The path of names, from the root or from the current directory. -/
def ofNames (absolute : Bool) (names : List Name) : RawPath :=
  (if absolute then [slash] else []) ++ joinedNames names

/-- The path without `.` and `..`; at the start of the path `..` has nothing to take away. -/
def normalise (path : RawPath) : RawPath :=
  ofNames (isAbsolute path) (collapse [] (parts path))

end RawPath

namespace Path

/-- Paths that start from the root. -/
def isAbsolute (path : String) : Bool := RawPath.isAbsolute (octets path)

/-- Paths that name a directory by a slash at their end. -/
def endsInSlash (path : String) : Bool := RawPath.endsInSlash (octets path)

/-- The parts between the slashes of a path. -/
def parts (path : String) : List Part := RawPath.parts (octets path)

/-- The parts that tell where a path leads; `.` counts only at the start of a relative path. -/
def components (path : String) : List Part :=
  match isAbsolute path, parts path with
  | false, .here :: rest => .here :: rest.filter (· != .here)
  | _, all => all.filter (· != .here)

/-- One path followed from where another one leads. -/
def join (base path : String) : String :=
  if isAbsolute path then path
  else if base = "" ∨ endsInSlash base then base ++ path
  else base ++ "/" ++ path

end Path

end LineShell
