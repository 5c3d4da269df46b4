import LineShell.Volume.Walk

/-!
# Operations on files and directories

What processes ask of a volume: to look at an entry, to read a file, to open one for writing, to
list, make and remove. Every operation answers either its result or the fault, and a fault leaves
the volume as it was.
-/

namespace LineShell

/-- A file opened for writing. -/
inductive Opening where
  | file (place : Location) (serial : Nat)
  | device (device : Device)
  deriving DecidableEq, Repr

namespace Volume

/-- Whether a path leads to anything. -/
def reaches (v : Volume) (cwd : WorkingDirectory) (path : String) : Bool :=
  (v.lookUp cwd path .follow).isOk

/-- Whether a path leads to a file that somebody may run. -/
def isProgram (v : Volume) (cwd : WorkingDirectory) (path : String) : Bool :=
  match v.lookUp cwd path .follow with
  | .ok (_, ⟨_, .file _ permissions⟩) => permissions.runnable
  | .ok (_, ⟨_, .program _⟩) => true
  | _ => false

/-- The octets that every program file begins with. -/
def programMark : Bytes := [0x7F, 0x45, 0x4C, 0x46, 2, 1, 1, 0, 0, 0, 0, 0, 0, 0, 0, 0]

/-- The contents of a file. -/
def readFile (v : Volume) (cwd : WorkingDirectory) (path : String) : Except FileFault Bytes :=
  match v.lookUp cwd path .follow with
  | .error fault => .error fault
  | .ok (_, ⟨_, .file contents permissions⟩) =>
    if permissions.mayRead then .ok contents else .error (.refused .accessDenied)
  | .ok (_, ⟨_, .program _⟩) => .ok programMark
  | .ok (_, ⟨_, .device _⟩) => .ok []
  | .ok (_, ⟨_, .directory permissions⟩) =>
    .error (.refused (if permissions.mayRead then .isDirectory else .accessDenied))
  | .ok (_, ⟨_, .link _⟩) => .error (.refused .linkLoop)

/-- The text of a file. -/
def readText (v : Volume) (cwd : WorkingDirectory) (path : String) : Except FileFault String :=
  match v.readFile cwd path with
  | .error fault => .error fault
  | .ok contents =>
    match Utf8.decode contents with
    | some text => .ok text
    | none => .error .notText

/-- The names in a directory. -/
def listDirectory (v : Volume) (cwd : WorkingDirectory) (path : String) :
    Except FileFault (List Name) :=
  match v.lookUp cwd path .follow with
  | .error fault => .error fault
  | .ok (place, entry) =>
    if !entry.node.isDirectory then .error (.refused .notDirectory)
    else if entry.node.mayList then .ok ((place.map fun p => (v.children p).map (·.1)).getD [])
    else .error (.refused .accessDenied)

/-- Opens a file for writing. A missing file is created, also where a link leads; an existing one is
emptied unless writing is to go after its contents. A path that asks for a directory is refused
whether there is one or not. -/
def openForWriting (v : Volume) (cwd : WorkingDirectory) (path : String) (append : Bool) :
    Except FileFault (Volume × Opening) :=
  match v.locate cwd path .create with
  | .error fault => .error fault
  | .ok (.removed _) => .error (.refused .isDirectory)
  | .ok (.vacant place slash) =>
    if slash then .error (.refused .isDirectory)
    else if v.mayChangeAt place then
      .ok (v.create place (.file [] .ofNewFile), .file place v.free)
    else .error (.refused .accessDenied)
  | .ok (.present place entry slash) =>
    if slash then .error (.refused .isDirectory)
    else match entry.node with
      | .directory _ => .error (.refused .isDirectory)
      | .link _ => .error (.refused .linkLoop)
      | .program _ => .error (.refused .textBusy)
      | .device device => .ok (v, .device device)
      | .file _ permissions =>
        if permissions.mayWrite then
          .ok (if append then v else v.put place { entry with node := .file [] permissions },
            .file place entry.serial)
        else .error (.refused .accessDenied)

/-- The directory that a path leads to, if one may be in it. -/
def enter (v : Volume) (cwd : WorkingDirectory) (path : RawPath) :
    Except FileFault WorkingDirectory :=
  match v.walk cwd path .follow with
  | .error fault => .error fault
  | .ok (.vacant _ _) => .error (.refused .noEntry)
  | .ok (.removed directory) => .ok directory
  | .ok (.present place entry _) =>
    if !entry.node.isDirectory then .error (.refused .notDirectory)
    else if entry.node.mayEnter then .ok (v.directoryAt place)
    else .error (.refused .accessDenied)

/-- The absolute path of a location. -/
def pathOf (place : Location) : RawPath := RawPath.ofNames true place

/-- The absolute path of the current directory, which a removed directory has not. -/
def pathOfDirectory (v : Volume) (cwd : WorkingDirectory) : Except FileFault RawPath :=
  if v.isAttached cwd then .ok (pathOf cwd.place) else .error (.refused .noEntry)

/-- Makes a directory. -/
def makeDirectory (v : Volume) (cwd : WorkingDirectory) (path : String) : Except FileFault Volume :=
  match v.locate cwd path .keep with
  | .error fault => .error fault
  | .ok (.present _ _ _) | .ok (.removed _) => .error (.refused .alreadyExists)
  | .ok (.vacant place _) =>
    if v.mayChangeAt place then .ok (v.create place .newDirectory)
    else .error (.refused .accessDenied)

/-- Removes a directory without entries. -/
def removeDirectory (v : Volume) (cwd : WorkingDirectory) (path : String) :
    Except FileFault Volume :=
  match v.lookUp cwd path .keep with
  | .error fault => .error fault
  | .ok (place, entry) =>
    match (Path.parts path).getLast?, place with
    | some (.name _), some place =>
      if !v.mayChangeAt place then .error (.refused .accessDenied)
      else if !entry.node.isDirectory then .error (.refused .notDirectory)
      else if (v.children place).isEmpty then .ok (v.remove place)
      else .error (.refused .notEmpty)
    | some .here, _ => .error (.refused .invalidArgument)
    | some .above, _ => .error (.refused .notEmpty)
    | _, _ => .error (.refused .busy)

end Volume

end LineShell
