import LineShell.Toolbox.Basic

/-!
# Copying files to the output

`cat` writes every file as soon as it has read it.
-/

namespace LineShell.Toolbox.Cat

/-- The serial number and size of the file that a descriptor stands for, and the offset in it. -/
def fileBehind (m : Machine) (row : Nat) : Option (Nat × Nat × Nat) :=
  match m.channel? row with
  | some (.file place serial _ offset) =>
    match m.contentsOf place serial with
    | some ⟨_, .file contents _⟩ => some (serial, contents.length, offset)
    | _ => none
  | _ => none

/-- Whether copying a file would only feed it to itself. -/
def isOwnOutput (call : Call) (m : Machine) (path : String) : Bool :=
  match fileBehind m call.streams.output with
  | none => false
  | some (output, size, _) =>
    if path = "-" then
      match fileBehind m call.streams.input with
      | some (input, _, offset) => input == output && offset < size
      | none => false
    else match m.volume.lookUp call.directory path .follow with
      | .ok (_, ⟨serial, .file _ _⟩) => serial == output && 0 < size
      | _ => false

/-- How copying goes on. -/
structure State where
  faulty : Bool
  ended : Option Ending

/-- Copies one file. -/
def copyFile (call : Call) (state : State) (path : String) : Action State := do
  if state.ended.isSome then return state
  if isOwnOutput call (← get) path then
    report call (quoteName path ++ ": input file is output file")
    return { state with faulty := true }
  match ← namedInput call path with
  | .error fault =>
    report call (quoteName path ++ ": " ++ reason fault)
    return { state with faulty := true }
  | .ok input =>
    match ← emit call input.octets with
    | some fault =>
      report call ("write error: " ++ reason fault)
      return { state with ended := some (.exited 1) }
    | none =>
      if input.cycle.isEmpty then return state
      modify fun m => m.writeForEver call.streams.output input.cycle
      return { state with ended := some (← endForEver call "write error" 1) }

end Cat

/-- Copies files to the output. -/
def cat : Program := program fun call =>
  withSwitches call (.ofLetters "u") 1 fun reading => do
    let paths := if reading.operands.isEmpty then ["-"] else reading.operands
    let notOpen := reason (.refused .badDescriptor)
    if isClosed (← get) call.streams.output then
      report call ("standard output: " ++ notOpen)
      return .exited 1
    let last ← paths.foldlM (Cat.copyFile call) ⟨false, none⟩
    if last.ended.isNone && paths.contains "-" && isClosed (← get) call.streams.input then
      report call ("closing standard input: " ++ notOpen)
    return last.ended.getD (.exited (if last.faulty then 1 else 0))

end LineShell.Toolbox
