import LineShell.Program
import LineShell.Toolbox.Quoting
import LineShell.Toolbox.Switches

/-!
# How tools work

A tool is an action on the machine: it reads its operands and streams, writes, and ends with a
status. Tools report on their error stream under the name by which they were called. What they
write on their output stream is held back until they end, unless a tool says otherwise.

Most tools work on lines of octets. A line keeps its line feed; only the last line of an input may
be without.
-/

namespace LineShell.Toolbox

/-- What a tool does to the machine. -/
abbrev Action := StateM Machine

/-- The program that does what an action does. -/
def program (act : Call → Action Ending) : Program := fun call m =>
  let (ending, m) := (act call).run m
  (m, ending)

/-- The line feed. -/
def lineFeed : UInt8 := 0x0A

/-- Cuts octets into lines, when some lines and a part of the next one are known, both reversed. -/
def linesFrom (ending : UInt8) (known : List Bytes) (begun : Bytes) : Bytes → List Bytes
  | [] => (if begun.isEmpty then known else begun.reverse :: known).reverse
  | octet :: rest =>
    if octet = ending then linesFrom ending ((octet :: begun).reverse :: known) [] rest
    else linesFrom ending known (octet :: begun) rest

/-- The lines of an input, each with its line feed. -/
def linesOf (input : Bytes) : List Bytes := linesFrom lineFeed [] [] input

/-- A line without its line feed. -/
def body (line : Bytes) : Bytes := if line.getLast? = some lineFeed then line.dropLast else line

/-- A line with a line feed in any case. -/
def closed (line : Bytes) : Bytes := body line ++ [lineFeed]

/-- Decimal digits that spell a number; nothing else. -/
def decimal? (text : List Char) : Option Nat :=
  if text.isEmpty || !text.all Char.isDigit then none
  else some (text.foldl (fun value c => value * 10 + (c.toNat - 48)) 0)

/-- Why a file could not be used, as tools word it. -/
def reason : FileFault → String
  | .refused e => e.libraryText
  | fault => fault.message

/-- The operands and options of a call, without the name of the tool. -/
def operands (call : Call) : List String := call.arguments.tail

/-- The name by which a tool was called. -/
def calledName (call : Call) : String := call.arguments.headD ""

/-- Writes a text on the error stream. -/
def complain (call : Call) (text : String) : Action Unit :=
  modify fun m => m.printOrSkip call.streams.error text

/-- Writes a line on the error stream, behind the name of the tool. -/
def report (call : Call) (text : String) : Action Unit :=
  complain call (calledName call ++ ": " ++ text ++ "\n")

/-- Points out where help can be found, and ends. -/
def hint (call : Call) (code : Nat) : Action Ending := do
  complain call ("Try '" ++ calledName call ++ " --help' for more information.\n")
  return .exited code

/-- Reports that a tool was called wrongly, and ends. -/
def refuse (call : Call) (code : Nat) (text : String) : Action Ending := do
  report call text
  hint call code

/-- Writes octets on the output stream, if there are some; answers why they were refused. -/
def emit (call : Call) (output : Bytes) : Action (Option FileFault) :=
  modifyGet fun m =>
    if output.isEmpty then (none, m)
    else match m.write call.streams.output output with
      | .ok m => (none, m)
      | .error fault => (some fault, m)

/-- Writes what is held back of an output, a part of which was written before. Answers how much is
written then. Tools do this before they report. -/
def settle (call : Call) (output : Bytes) (sent : Nat) : Action Nat := do
  match ← emit call (output.drop sent) with
  | none => return output.length
  | some _ => return sent

/-- Whether a stream is not open at all. -/
def isClosed (m : Machine) (row : Nat) : Bool :=
  match m.channel? row with
  | none | some .closed => true
  | some _ => false

/-- Octets of output that a tool holds back; when there are more it notices a full device while it
is still writing. -/
def heldBack : Nat := 4096

/-- Writes what was held back and ends; a full device is reported. -/
def finishWith (call : Call) (failure code : Nat) (output : Bytes) : Action Ending := do
  match ← emit call output with
  | none => return .exited code
  | some fault =>
    report call ("write error: " ++ reason fault)
    return .exited failure

/-- Writes what was held back and ends. -/
def finish (call : Call) (code : Nat) (output : Bytes) : Action Ending :=
  finishWith call 1 code output

/-- An input: octets, and what repeats for ever after them. -/
structure Input where
  octets : Bytes
  cycle : Bytes

/-- The input stream of a tool with nothing taken from it, or why it cannot be read. -/
def inputStream (call : Call) : Action (Except FileFault Input) := do
  let m ← get
  match m.readingFault? call.streams.input with
  | some fault => return .error fault
  | none =>
    let (octets, cycle) := m.unread call.streams.input
    return .ok ⟨octets, cycle⟩

/-- Octets of an endless input that are looked at before whoever reads the output has enough. -/
def enough : Nat := 262144

/-- What is known of an input. -/
def Input.known (input : Input) : Bytes := Machine.unroll input.octets input.cycle enough

/-- Cuts a tool off that writes more to a pipe than anybody reads: the signal ends it, or a report
if it ignores the signal. -/
def endByPipe (call : Call) (complaint : String) (failure : Nat) : Action Ending := do
  modify fun m => m.cut call.streams.output
  if call.ignored.contains brokenPipeSignal then
    report call (complaint ++ ": " ++ reason (.refused .brokenPipe))
    return .exited failure
  else return .killed brokenPipeSignal

/-- The ending of a tool that writes for ever: by its pipe when nobody reads, and else none. -/
def endForEver (call : Call) (complaint : String) (failure : Nat) : Action Ending := do
  if ((← get).stream? call.streams.output).any (·.isPipe) then endByPipe call complaint failure
  else return .goesOn

/-- Takes some octets off the input stream, which is read in blocks of some size. -/
def useInput (call : Call) (block count : Nat) : Action Unit :=
  modify fun m => m.consumeBlocks call.streams.input block count

/-- Takes everything off the input stream. -/
def takeInput (call : Call) : Action (Except FileFault Input) := do
  let input ← inputStream call
  modify fun m => (m.takeAll call.streams.input).1
  return input

/-- The contents of the file at a path. -/
def fileInput (call : Call) (path : String) : Action (Except FileFault Input) := do
  let m ← get
  match m.volume.lookUp call.directory path .follow with
  | .ok (_, ⟨_, .device device⟩) => return .ok ⟨[], device.cycle⟩
  | _ => return (m.volume.readFile call.directory path).map fun octets => ⟨octets, []⟩

/-- Whether a fault shows only when an input that could be opened, or was open, is read. -/
def showsOnReading (fault : FileFault) : Bool :=
  fault == .refused .isDirectory || fault == .refused .badDescriptor

/-- The contents of a file, or for a dash all of the input stream. -/
def namedInput (call : Call) (path : String) : Action (Except FileFault Input) :=
  if path = "-" then takeInput call else fileInput call path

/-- A tool that writes nothing before it has seen the end of its input. When it starves it has done
nothing else. -/
def awaiting (tool : Program) : Program := fun call m =>
  let result := tool call m
  if result.1.isStarved call.streams.input then
    ((m.takeAll call.streams.input).1, .killed brokenPipeSignal)
  else result

/-- The program that ends with a status and does nothing. -/
def always (code : Nat) : Program := program fun _ => return .exited code

/-- Reads the options of a call and goes on, unless they are faulty; a fault is reported. -/
def withSwitches (call : Call) (switches : Switches) (failure : Nat)
    (go : SwitchReading → Action Ending) : Action Ending := do
  let reading := switches.read (operands call)
  match reading.fault with
  | none => go reading
  | some fault =>
    modify fun m =>
      m.writeOrSkip call.streams.error (octets (calledName call ++ ": ") ++ fault ++ [lineFeed])
    hint call failure

end LineShell.Toolbox
