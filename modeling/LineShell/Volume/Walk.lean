import LineShell.Failure
import LineShell.Volume.Basic

/-!
# Following a path

A path is followed part by part from the root or from the current directory. `descend` goes on
until the parts are used up or a symbolic link is met; `resolve` puts the link's target in the
place of the link and descends again, at most forty times. The answer is an entry, or a free
location in an existing directory where something may be created.

A process may stand in a directory that has been removed. Such a directory has no entries any
more, but the way up is still open, and it leads to the directory that was its parent, wherever
something new may have been put in the meantime.

## Implementation notes

`climb`, `descend` and `resolve` recurse on their input: the first two on the parts, `resolve` on
the number of links still allowed. In a volume without links `resolve` is one `descend`.
-/

namespace LineShell

/-- The current directory of a process: the names from the root to it, each with the serial number
of the directory that has this name. -/
structure WorkingDirectory where
  steps : List (Name × Nat)
  deriving DecidableEq, Repr

namespace WorkingDirectory

/-- The root. -/
def root : WorkingDirectory := ⟨[]⟩

/-- Where the directory is, or was. -/
def place (cwd : WorkingDirectory) : Location := cwd.steps.map (·.1)

/-- The directory above; the root is above itself. -/
def parent (cwd : WorkingDirectory) : WorkingDirectory := ⟨cwd.steps.dropLast⟩

end WorkingDirectory

/-- Where a path leads. A slash at its end is kept, for it asks for a directory. -/
inductive Destination where
  | present (place : Location) (entry : Entry) (slash : Bool)
  /-- The directory exists and has no such name. -/
  | vacant (place : Location) (slash : Bool)
  /-- A directory that has been removed. -/
  | removed (directory : WorkingDirectory)
  deriving DecidableEq, Repr

/-- What happens at a symbolic link that is the last part of a path. -/
inductive LastLink where
  /-- It is followed. -/
  | follow
  /-- It is the answer. -/
  | keep
  /-- It is followed, since a file may be created where it leads; but a slash ends the walk, since
  no file can be created at a path that asks for a directory. -/
  | create
  deriving DecidableEq, Repr

/-- Whether the walk ends at a link that is the last part. -/
def LastLink.stops : LastLink → Bool → Bool
  | .follow, _ => false
  | .keep, _ => true
  | .create, slash => slash

/-- Where a walk begins. -/
inductive Origin where
  | attached (here : Location) (parts : List Path.Part)
  /-- All parts lead up and down nowhere but to a removed directory. -/
  | removed (directory : WorkingDirectory)
  deriving DecidableEq, Repr

namespace Volume

/-- Where following the parts of a path came to a halt. -/
inductive Halt where
  | found (place : Location)
  | missing (place : Location)
  | link (place : Location) (target : String) (rest : List Path.Part)
  | refused (e : Errno)
  deriving DecidableEq, Repr

/-- Names have at most this many octets. -/
def longestName : Nat := 255

/-- Paths have fewer octets than this. -/
def longestPath : Nat := 4096

/-- Symbolic links that one path may lead through. -/
def mostLinks : Nat := 40

/-- Follows parts from a location until they are used up or a link is met. -/
def descend (v : Volume) (here : Location) : List Path.Part → Halt
  | [] => .found here
  | part :: rest =>
    match v.find? here with
    | none => .refused .noEntry
    | some entry =>
      if !entry.node.isDirectory then .refused .notDirectory
      else if !entry.node.mayEnter then .refused .accessDenied
      else match part with
        | .here => descend v here rest
        | .above => descend v here.dropLast rest
        | .name name =>
          let place := here ++ [name]
          if name.spelling.length > longestName then .refused .nameTooLong
          else match v.find? place with
            | none => if rest.isEmpty then .missing place else .refused .noEntry
            | some ⟨_, .link target⟩ => .link place target rest
            | some _ => descend v place rest

/-- Follows parts and links, with a rule for the last part. -/
def resolve (v : Volume) (last : LastLink) :
    Nat → Location → List Path.Part → Bool → Except Errno Destination
  | links, here, parts, slash =>
    match v.descend here parts with
    | .found place =>
      match v.find? place with
      | some entry => .ok (.present place entry slash)
      | none => .error .noEntry
    | .missing place => .ok (.vacant place slash)
    | .refused e => .error e
    | .link place target rest =>
      if rest.isEmpty && last.stops slash then
        match v.find? place with
        | some entry => .ok (.present place entry slash)
        | none => .error .noEntry
      else match links with
        | 0 => .error .linkLoop
        | links + 1 =>
          resolve v last links (if Path.isAbsolute target then [] else place.dropLast)
            (Path.parts target ++ rest) (slash || (rest.isEmpty && Path.endsInSlash target))

/-- Whether a process still stands in a directory of the volume. -/
def isAttached (v : Volume) (cwd : WorkingDirectory) : Bool :=
  match cwd.steps.getLast? with
  | none => true
  | some (_, serial) =>
    (v.find? cwd.place).any fun entry => entry.serial == serial && entry.node.isDirectory

/-- The directory at a location, with the serial numbers of those above it. -/
def directoryAt (v : Volume) (place : Location) : WorkingDirectory :=
  ⟨place.mapIdx fun i name => (name, ((v.find? (place.take (i + 1))).map (·.serial)).getD 0)⟩

/-- Climbs out of removed directories, as far as the parts of a path lead up. -/
def climb (v : Volume) (cwd : WorkingDirectory) : List Path.Part → Except Errno Origin
  | [] => .ok (if v.isAttached cwd then .attached cwd.place [] else .removed cwd)
  | part :: rest =>
    if v.isAttached cwd then .ok (.attached cwd.place (part :: rest))
    else match part with
      | .here => climb v cwd rest
      | .above => climb v cwd.parent rest
      | .name _ => .error .noEntry

/-- Where a path starts. -/
def origin (v : Volume) (cwd : WorkingDirectory) (path : RawPath) : Except Errno Origin :=
  if RawPath.isAbsolute path then .ok (.attached [] (RawPath.parts path))
  else v.climb cwd (RawPath.parts path)

/-- Where a path leads from the current directory. -/
def walk (v : Volume) (cwd : WorkingDirectory) (path : RawPath) (last : LastLink) :
    Except FileFault Destination :=
  if path.contains 0 then .error .nulInPath
  else if path = [] then .error (.refused .noEntry)
  else if path.length ≥ longestPath then .error (.refused .nameTooLong)
  else
    match v.origin cwd path with
    | .error e => .error (.refused e)
    | .ok (.removed directory) => .ok (.removed directory)
    | .ok (.attached here parts) =>
      match v.resolve last mostLinks here parts (RawPath.endsInSlash path) with
      | .error e => .error (.refused e)
      | .ok destination => .ok destination

/-- Where a path that is text leads from the current directory. -/
def locate (v : Volume) (cwd : WorkingDirectory) (path : String) (last : LastLink) :
    Except FileFault Destination :=
  v.walk cwd (octets path) last

/-- What stands for a removed directory, which has no location any more. Who is in it may be there,
and nobody can change that. -/
def removedEntry (directory : WorkingDirectory) : Entry :=
  ⟨((directory.steps.getLast?).map (·.2)).getD 0, .newDirectory⟩

/-- The entry that a path leads to, with its location if it has one. -/
def lookUp (v : Volume) (cwd : WorkingDirectory) (path : String) (last : LastLink) :
    Except FileFault (Option Location × Entry) :=
  match v.locate cwd path last with
  | .error fault => .error fault
  | .ok (.vacant _ _) => .error (.refused .noEntry)
  | .ok (.removed directory) => .ok (none, removedEntry directory)
  | .ok (.present place entry slash) =>
    if slash && !entry.node.isDirectory then .error (.refused .notDirectory)
    else .ok (some place, entry)

end Volume

end LineShell
