import LineShell.Toolbox.Basic

/-!
# Writing lines backwards

`rev` writes every line from its end to its start. A zero octet ends a line early, and nothing of
the rest of it is written. Only characters of one octet below 0x80 can be read: another one ends the
input, and the file counts as faulty.
-/

namespace LineShell.Toolbox.Rev

/-- A line from its end to its start. -/
def reversed (line : Bytes) : Bytes :=
  let text := line.takeWhile (· != 0)
  (body text).reverse ++ if text.getLast? = some lineFeed then [lineFeed] else []

/-- Whether a line can be read. -/
def isReadable (line : Bytes) : Bool := line.all (· < 0x80)

/-- What is written of a file, and the number of the line that cannot be read, counted from zero. -/
def reverseAll (input : Bytes) : Bytes × Option Nat :=
  let lines := linesOf input
  let readable := lines.takeWhile isReadable
  ((readable.map reversed).flatten,
    if readable.length = lines.length then none else some readable.length)

/-- Writes under the short name of the tool. -/
def reportShort (call : Call) (text : String) : Action Unit :=
  complain call (((piecesOf '/' (calledName call)).getLast?).getD "" ++ ": " ++ text ++ "\n")

/-- Reverses one file, behind what has been made of others. -/
def reverseFile (call : Call) (state : Bytes × Bool) (path : Option String) :
    Action (Bytes × Bool) := do
  let (output, faulty) := state
  let name := path.getD "stdin"
  let input ← match path with
    | some path => fileInput call path
    | none => takeInput call
  match input with
  | .ok input =>
    match reverseAll input.octets with
    | (reversed, none) => return (output ++ reversed, faulty)
    | (reversed, some number) =>
      reportShort call (name ++ ": " ++ number.repr ++
        ": Invalid or incomplete multibyte or wide character")
      return (output ++ reversed, true)
  | .error fault =>
    if showsOnReading fault then reportShort call (name ++ ": 0: " ++ reason fault)
    else reportShort call ("cannot open " ++ name ++ ": " ++ reason fault)
    return (output, true)

end Rev

open Rev in
/-- Writes lines backwards. -/
def rev : Program := program fun call =>
  withSwitches call (.ofLetters "") 1 fun reading => do
    let paths := if reading.operands.isEmpty then [none] else reading.operands.map some
    let (output, faulty) ← paths.foldlM (reverseFile call) ([], false)
    match ← emit call output with
    | none | some (.refused .badDescriptor) => return .exited (if faulty then 1 else 0)
    | some fault =>
      reportShort call
        ("write error" ++ if heldBack < output.length then "" else ": " ++ reason fault)
      return .exited 1

end LineShell.Toolbox
