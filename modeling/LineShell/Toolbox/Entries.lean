import LineShell.Toolbox.Basic

/-!
# Making and removing entries

`mkdir` makes directories, `rmdir` removes empty ones, `mkfifo` makes named pipes, and `rm` removes
files and, if asked to, directories with all they hold. Each goes on with the next operand when one
is refused.

## Implementation notes

Programs run one after the other. Who opens a named pipe to read it does so for those who come
later, and has left when they write: the pipes that `mkfifo` makes are abandoned ones.
-/

namespace LineShell.Toolbox.Entries

/-- Reports a refusal. -/
def refused (call : Call) (what : String) (fault : FileFault) : Action Bool := do
  report call (what ++ ": " ++ reason fault)
  return false

/-- Applies an operation to the volume. -/
def change (operation : Volume → Except FileFault Volume) : Action (Option FileFault) :=
  modifyGet fun m =>
    match operation m.volume with
    | .ok volume => (none, { m with volume := volume })
    | .error fault => (some fault, m)

/-- Does something with every operand, and ends well if all of it went well. -/
def forOperands (call : Call) (reading : SwitchReading) (act : String → Action Bool) :
    Action Ending := do
  match reading.operands with
  | [] => refuse call 1 "missing operand"
  | paths =>
    let went ← paths.mapM act
    return .exited (if went.all id then 0 else 1)

/-- Whether a path leads to a directory. -/
def leadsToDirectory (call : Call) (m : Machine) (path : String) : Bool :=
  (m.volume.enter call.directory (octets path)).isOk

/-- The paths of the directories above the last part of a path, as they are spelled in it. -/
def ancestors (path : String) : List String :=
  go [] path.toList
where
  /-- Cuts before every run of slashes that something follows and precedes. -/
  go (before : List Char) : List Char → List String
    | [] => []
    | c :: rest =>
      let here :=
        if c = '/' && rest.any (· != '/') && before.head?.any (· != '/') then
          [String.ofList before.reverse]
        else []
      here ++ go (c :: before) rest

/-- Makes the directories above the last part of a path that are missing; answers whether that
worked. -/
def makeAncestors (call : Call) : List String → Action Bool
  | [] => return true
  | path :: rest => do
    match ← change fun v => v.makeDirectory call.directory path with
    | none => makeAncestors call rest
    | some fault =>
      let m ← get
      if leadsToDirectory call m path then makeAncestors call rest
      else
        refused call ("cannot create directory " ++ quoteText path)
          (if m.volume.reaches call.directory path then .refused .notDirectory else fault)

/-- Makes a directory, with those above it if asked to. -/
def makeOne (call : Call) (parents : Bool) (path : String) : Action Bool := do
  let isReady ← if parents then makeAncestors call (ancestors path) else pure true
  if !isReady then return false
  match ← change fun v => v.makeDirectory call.directory path with
  | none => return true
  | some fault =>
    if parents && leadsToDirectory call (← get) path then return true
    else refused call ("cannot create directory " ++ quoteText path) fault

/-- A volume with a new named pipe. -/
def withPipe (cwd : WorkingDirectory) (path : String) (v : Volume) : Except FileFault Volume :=
  match v.locate cwd path .keep with
  | .error fault => .error fault
  | .ok (.present _ _ _) | .ok (.removed _) => .error (.refused .alreadyExists)
  | .ok (.vacant place slash) =>
    if slash then .error (.refused .noEntry)
    else if v.mayChangeAt place then .ok (v.create place (.device .abandoned))
    else .error (.refused .accessDenied)

/-- Makes a named pipe. -/
def makePipe (call : Call) (path : String) : Action Bool := do
  match ← change (withPipe call.directory path) with
  | none => return true
  | some fault => refused call ("cannot create fifo " ++ quoteAlways path) fault

/-- Removes an empty directory. -/
def removeEmpty (call : Call) (path : String) : Action Bool := do
  match ← change fun v => v.removeDirectory call.directory path with
  | none => return true
  | some fault => refused call ("failed to remove " ++ quoteAlways path) fault

/-- How `rm` works. -/
structure Manner where
  recursive : Bool
  /-- Missing files are no fault. -/
  lenient : Bool

/-- Removes the entry at a location with all that is below it, as deep as is given. Answers whether
it is gone. -/
def removeAt (call : Call) : Nat → String → Location → Action Bool
  | 0, _, _ => return false
  | depth + 1, path, place => do
    let children := ((← get).volume.children place).map (·.1)
    let gone ← children.mapM fun name =>
      removeAt call depth (Path.join path (Utf8.lossy name.spelling)) (place ++ [name])
    if !gone.all id then return false
    let m ← get
    if m.volume.mayChangeAt place then
      set { m with volume := m.volume.remove place }
      return true
    else refused call ("cannot remove " ++ quoteAlways path) (.refused .accessDenied)

/-- Removes what an operand names. -/
def removeOperand (call : Call) (manner : Manner) (path : String) : Action Bool := do
  let m ← get
  let refused := refused call ("cannot remove " ++ quoteAlways path)
  match m.volume.lookUp call.directory path (if Path.endsInSlash path then .follow else .keep) with
  | .error fault =>
    if manner.lenient && (fault == .refused .noEntry || fault == .refused .notDirectory) then
      return true
    else refused fault
  | .ok (place, entry) =>
    let last := (Path.parts path).getLast?
    if entry.node.isDirectory && !manner.recursive then refused (.refused .isDirectory)
    else if entry.node.isDirectory && (last == some .here || last == some .above) then
      report call ("refusing to remove '.' or '..' directory: skipping " ++ quoteAlways path)
      return false
    else match place with
      | none => refused (.refused .noEntry)
      | some [] =>
        report call ("it is dangerous to operate recursively on " ++ quoteAlways path ++
          if path = "/" then "" else " (same as '/')")
        report call "use --no-preserve-root to override this failsafe"
        return false
      | some place => removeAt call (m.volume.rows.length + 1) path place

end Entries

open Entries in
/-- Makes directories. -/
def mkdir : Program := program fun call =>
  withSwitches call (.ofLetters "p") 1 fun reading =>
    forOperands call reading (makeOne call (reading.has 'p'))

open Entries in
/-- Makes named pipes. -/
def mkfifo : Program := program fun call =>
  withSwitches call (.ofLetters "") 1 fun reading => forOperands call reading (makePipe call)

open Entries in
/-- Removes empty directories. -/
def rmdir : Program := program fun call =>
  withSwitches call (.ofLetters "") 1 fun reading => forOperands call reading (removeEmpty call)

open Entries in
/-- Removes files and directories. -/
def rm : Program := program fun call =>
  withSwitches call (.ofLetters "fr") 1 fun reading => do
    let manner : Manner := ⟨reading.has 'r', reading.has 'f'⟩
    if manner.lenient && reading.operands.isEmpty then return .exited 0
    forOperands call reading (removeOperand call manner)

end LineShell.Toolbox
