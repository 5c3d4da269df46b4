import LineShell.Toolbox.Basic

/-!
# The beginning and the end of files

`head` shows the first lines or octets of files, or all but the last ones; `tail` shows the last
ones, or all from some line or octet on. A count of lines counts line feeds, so a last line without
one is a line as well.

## Implementation notes

`Part.select` answers what is shown. How much of the input stream is used up depends on the stream:
who can go back leaves what is not shown, except that `tail` always goes to the end.
-/

namespace LineShell.Toolbox.Ends

/-- Which part of an input is shown. -/
inductive Extent where
  | first (count : Nat)
  | allButLast (count : Nat)
  | last (count : Nat)
  /-- From a line or octet on; the first one has the number one. -/
  | from (number : Nat)
  deriving DecidableEq

/-- What is shown of every file. -/
structure Part where
  inLines : Bool
  extent : Extent

/-- The units that are counted: lines, or single octets. -/
def Part.units (part : Part) (input : Bytes) : List Bytes :=
  if part.inLines then linesOf input else input.map fun octet => [octet]

/-- The part of an input that is shown. -/
def Part.select (part : Part) (input : Bytes) : Bytes :=
  let units := part.units input
  (match part.extent with
    | .first count => units.take count
    | .allButLast count => units.take (units.length - count)
    | .last count => units.drop (units.length - count)
    | .from number => units.drop (number - 1)).flatten

/-- The part of an input that may go on for ever. -/
def Part.selectEndless (part : Part) (input : Input) : Bytes :=
  match part.extent with
  | .first count =>
    part.select (Machine.unroll input.octets input.cycle
      (if part.inLines then input.octets.length + count * input.cycle.length else count))
  | _ => part.select input.octets

/-- The size of the blocks that are read from a stream. -/
def blockSize : Nat := 8192

/-- How a tool of this kind works. -/
structure Manner where
  /-- The input stream is read to its end whatever is shown. -/
  readsOn : Bool
  part : Part

/-- Whether it is asked what an input is before it is read. -/
def Manner.asksFirst (manner : Manner) : Bool :=
  manner.readsOn || match manner.part.extent with
    | .allButLast _ => true
    | _ => false

/-- The name under which an input is shown and reported. -/
def displayName (path : String) : String := if path = "-" then "standard input" else path

/-- The part of the input stream that is shown; what was used of it is taken. -/
def showStream (call : Call) (manner : Manner) : Action (Except FileFault Bytes) := do
  match ← inputStream call with
  | .error fault => return .error fault
  | .ok input =>
    let shown := manner.part.selectEndless input
    match manner.part.extent with
    | .first 0 | .last 0 => return .ok shown
    | .first _ =>
      let isShort := input.cycle.isEmpty && shown.length = input.octets.length
      useInput call (if manner.part.inLines then blockSize else 1)
        (if isShort then input.octets.length else shown.length)
      return .ok shown
    | _ =>
      if manner.readsOn || ((← get).stream? call.streams.input).isSome then
        modify fun m => (m.takeAll call.streams.input).1
      else useInput call input.octets.length shown.length
      match manner.part.extent with
      | .last _ => return .ok (if (← get).isStarved call.streams.input then [] else shown)
      | _ => return .ok shown

/-- What has been shown, how much of it is written, and whether something went wrong. -/
structure Progress where
  output : Bytes
  sent : Nat
  faulty : Bool

/-- Writes what is held back, and reports. -/
def Progress.report (state : Progress) (call : Call) (text : String) : Action Progress := do
  let sent ← settle call state.output state.sent
  Toolbox.report call text
  return { state with sent := sent, faulty := true }

/-- Shows one file, under its name if there are several. -/
def showFile (call : Call) (manner : Manner) (several : Bool) (state : Progress) (path : String) :
    Action Progress := do
  let header : Bytes :=
    if several then
      octets ((if state.output.isEmpty then "" else "\n") ++ "==> " ++ displayName path ++ " <==\n")
    else []
  let found ←
    if path = "-" then showStream call manner
    else do
      let input ← fileInput call path
      pure (input.map manner.part.selectEndless)
  match found with
  | .ok shown => return { state with output := state.output ++ header ++ shown }
  | .error fault =>
    if showsOnReading fault && manner.part.extent = .first 0 then
      return { state with output := state.output ++ header }
    else if showsOnReading fault then
      let unknown := manner.asksFirst && path = "-" && isClosed (← get) call.streams.input
      Progress.report { state with output := state.output ++ header } call
        ((if unknown then "cannot fstat " else "error reading ") ++
          quoteAlways (displayName path) ++ ": " ++ reason fault)
    else
      state.report call ("cannot open " ++ quoteAlways (displayName path) ++ " for reading: " ++
        reason fault)

/-- Shows the part of every file. -/
def showAll (call : Call) (manner : Manner) (paths : List String) : Action Ending := do
  let paths := if paths.isEmpty then ["-"] else paths
  let last ← paths.foldlM (showFile call manner (1 < paths.length)) ⟨[], 0, false⟩
  let last ←
    if paths.contains "-" && isClosed (← get) call.streams.input then
      last.report call ("-: " ++ reason (.refused .badDescriptor))
    else pure last
  match ← emit call (last.output.drop last.sent) with
  | none => return .exited (if last.faulty then 1 else 0)
  | some fault =>
    let early := heldBack ≤ last.output.length - last.sent
    report call ((if early then "error writing 'standard output': " else "write error: ") ++
      reason fault)
    return .exited 1

/-- The options. -/
def switches : Switches := { letters := [('c', true), ('n', true)] }

/-- Arguments in which a number behind a dash at the start is a count of lines. -/
def spelledOut : List String → List String
  | [] => []
  | first :: rest =>
    match first.toList with
    | '-' :: digits =>
      if (decimal? digits).isSome then "-n" :: String.ofList digits :: rest else first :: rest
    | _ => first :: rest

/-- What the last count asks for, or a count that is none. -/
def partOf (extentOf : List Char → Option Extent) (usual : Extent) (given : List Switch) :
    Except (Bool × String) Part :=
  given.foldlM (fun _ ⟨letter, value⟩ =>
    match extentOf (value.getD "").toList with
    | some extent => .ok ⟨letter == 'n', extent⟩
    | none => .error (letter == 'n', value.getD "")) ⟨true, usual⟩

/-- Reads options and shows what they ask for. -/
def run (call : Call) (readsOn : Bool) (extentOf : List Char → Option Extent) (usual : Extent) :
    Action Ending :=
  withSwitches { call with arguments := calledName call :: spelledOut (operands call) } switches 1
    fun reading => do
      match partOf extentOf usual reading.given with
      | .error (inLines, text) =>
        let shown := match text.toList with
          | '-' :: rest => String.ofList rest
          | _ => text
        report call ("invalid number of " ++ (if inLines then "lines: " else "bytes: ") ++
          quoteText shown)
        return .exited 1
      | .ok ⟨_, .last 0⟩ => return .exited 0
      | .ok part => showAll call ⟨readsOn, part⟩ reading.operands

/-- What a count of `head` asks for; a minus sign leaves the last ones out. -/
def headExtent : List Char → Option Extent
  | '-' :: rest => (decimal? rest).map .allButLast
  | text => (decimal? text).map .first

/-- What a count of `tail` asks for; a plus sign counts from the start. -/
def tailExtent : List Char → Option Extent
  | '+' :: rest => (decimal? rest).map .from
  | '-' :: rest => (decimal? rest).map .last
  | text => (decimal? text).map .last

end Ends

open Ends in
/-- Shows the first lines or octets of files. -/
def head : Program := program fun call => run call false headExtent (.first 10)

open Ends in
/-- Shows the last lines or octets of files. -/
def tail : Program := program fun call => run call true tailExtent (.last 10)

end LineShell.Toolbox
