import LineShell.Toolbox.Script.Reading
import LineShell.Toolbox.Script.Signal

/-!
# The state of the script interpreter

What an interpreter keeps while it runs a script: its descriptors, operands and variables, and what
came of the last command. A job is an action on this state that may leave the usual course. A word
stands for fields: values are put in, and what was put in without quotes is cut at blanks.
-/

namespace LineShell.Toolbox.Script

/-- A variable. -/
structure Variable where
  name : Text
  value : Text
  /-- Programs get it. -/
  exported : Bool
  deriving DecidableEq

/-- Ways of leaving the usual course. -/
inductive Departure where
  | ended
  /-- By a signal. -/
  | killed (signal : Nat)
  /-- Something went wrong and was reported. -/
  | failed
  deriving DecidableEq

/-- An interpreter while it runs. -/
structure Interpreter where
  machine : Machine
  /-- Open descriptors with the rows they stand for. -/
  descriptors : List (Nat × Nat)
  /-- The name of the script. -/
  name : Text
  operands : List Text
  /-- Variables; the first one of a name counts. -/
  known : List Variable
  directory : WorkingDirectory
  status : Nat
  line : Nat
  /-- The command of the interpreter that is running. -/
  command : Option Text
  /-- Signals that are ignored. -/
  ignored : List Nat
  /-- The process that the script was started as. -/
  root : Nat
  process : Nat
  parent : Nat

/-- An action of the interpreter. -/
abbrev Job := ExceptT Departure (StateM Interpreter)

namespace Interpreter

/-- The value of a variable. -/
def value? (i : Interpreter) (name : Text) : Option Text :=
  (i.known.find? (·.name == name)).map (·.value)

/-- Gives a value to a variable. -/
def assign (i : Interpreter) (name value : Text) (exported : Bool) : Interpreter :=
  let exported := exported || i.known.any fun v => v.name == name && v.exported
  { i with known := ⟨name, value, exported⟩ :: i.known.filter (·.name != name) }

/-- The variables that programs get. -/
def environment (i : Interpreter) : Environment :=
  Environment.ofList ((i.known.filter (·.exported)).map fun v =>
    (stringOf v.name, stringOf v.value))

/-- A row that no table of channels has. -/
def noRow : Nat := 4294967296

/-- The row of a descriptor; one that is not open stands for a row that is not in the table. -/
def row (i : Interpreter) (descriptor : Nat) : Nat :=
  (i.descriptors.lookup descriptor).getD noRow

/-- The interpreter with a descriptor standing for a row, or for none. -/
def withDescriptor (i : Interpreter) (descriptor : Nat) (row : Option Nat) : Interpreter :=
  let others := i.descriptors.filter (·.1 != descriptor)
  { i with descriptors := (row.map fun row => (descriptor, row)).toList ++ others }

/-- The streams that programs get. -/
def streams (i : Interpreter) : Streams := ⟨i.row 0, i.row 1, i.row 2⟩

/-- The value of a parameter that is no list. -/
def parameter? (i : Interpreter) (name : Text) : Option Text :=
  match String.ofList name with
  | "?" => some (textOf i.status.repr)
  | "#" => some (textOf i.operands.length.repr)
  | "$" => some (textOf i.root.repr)
  | _ =>
    match decimal? name with
    | some 0 => some i.name
    | some n => i.operands[n - 1]?
    | none => i.value? name

end Interpreter

/-- A bit of what a word stands for, before it is cut. -/
inductive Bit where
  /-- A character; a loose one may be cut at. -/
  | letter (c : Char) (loose : Bool)
  /-- The end of a field in any case. -/
  | cut
  /-- A field in any case. -/
  | present
  deriving DecidableEq

namespace Bit

/-- The bits of a text. -/
def ofText (loose : Bool) (text : Text) : List Bit := text.map fun c => .letter c loose

/-- Blanks, which separate fields. -/
def isBlank (c : Char) : Bool := c == ' ' || c == '\t' || c == '\n'

/-- Cuts bits into fields, the first of which has begun or not. -/
def fields : Option Text → List Bit → List Text
  | growing, [] => growing.toList.map List.reverse
  | growing, bit :: rest =>
    let finished := growing.toList.map List.reverse
    match bit with
    | .cut => finished ++ fields none rest
    | .present => fields (some (growing.getD [])) rest
    | .letter c loose =>
      if loose && isBlank c then finished ++ fields none rest
      else fields (some (c :: growing.getD [])) rest

/-- The bits that a piece stands for. -/
def ofPiece (i : Interpreter) : Piece → List Bit
  | .text text true => .present :: ofText false text
  | .text text false => ofText false text
  | .value name quoted =>
    let field (text : Text) : List Bit :=
      if quoted then .present :: ofText false text else ofText true text
    match name, quoted with
    | ['@'], _ | ['*'], false => ((i.operands.map field).intersperse [.cut]).flatten
    | ['*'], true => ofText false ((i.operands.intersperse [' ']).flatten)
    | name, quoted => ofText (!quoted) ((i.parameter? name).getD [])

/-- The text of bits, which is not cut. -/
def text (bits : List Bit) : Text :=
  bits.filterMap fun
    | .letter c _ => some c
    | .cut => some ' '
    | .present => none

end Bit

/-- The fields that a word stands for. -/
def Interpreter.fields (i : Interpreter) (word : Word) : List Text :=
  Bit.fields none (word.flatMap (Bit.ofPiece i))

/-- The text that a word stands for. -/
def Interpreter.text (i : Interpreter) (word : Word) : Text :=
  Bit.text (word.flatMap (Bit.ofPiece i))

namespace Job

/-- What a signal does to the interpreter. -/
def receive (signal : Nat) : Job Unit := do
  let i ← get
  if (i.ignored.contains signal && signal != 9) || Signal.harmless.contains signal then return
  throw (.killed signal)

/-- Whether a process that has written to a stream is at its end: the stream takes no more, or it is
a pipe and holds more than there is patience for. -/
def isSpent (m : Machine) (s : Stream) : Bool :=
  s.isCut || s.isPipe && m.patience < s.written

/-- Writes octets on a descriptor; answers whether they could be written. -/
def write (descriptor : Nat) (text : Bytes) : Job Bool := do
  let i ← get
  let row := i.row descriptor
  match i.machine.write row text with
  | .ok m =>
    if !text.isEmpty && (m.stream? row).any (isSpent m) then
      set { i with machine := m.cut row }
      receive brokenPipeSignal
      return false
    else
      set { i with machine := m }
      return true
  | .error fault =>
    if fault == .refused .brokenPipe then receive brokenPipeSignal
    return false

/-- A process that has come to the end of a stream whose writer was cut off waits for more, and does
nothing else. -/
def waitIfStarved : Job Unit := do
  let i ← get
  if i.machine.isStarved (i.row 0) then throw (.killed 0)

/-- Writes a text on the error stream. -/
def complain (text : Text) : Job Unit := do
  let _ ← write 2 (octetsOf text)

/-- Reports on the error stream: name of the script, line, and command. -/
def report (text : Text) : Job Unit := do
  let i ← get
  let command := match i.command with
    | some command => command ++ textOf ": "
    | none => []
  complain (i.name ++ textOf (": " ++ i.line.repr ++ ": ") ++ command ++ text ++ ['\n'])

/-- Sets the status of the last command. -/
def setStatus (status : Nat) : Job Unit := modify fun i => { i with status := status }

/-- Reports and gives up. -/
def fail {α : Type} (text : Text) : Job α := do
  report text
  setStatus 2
  throw .failed

/-- Does a job and answers how it left the usual course, if it did. -/
def attempt {α : Type} (job : Job α) : Job (Except Departure α) := fun i =>
  match job i with
  | (result, i) => (.ok result, i)

/-- Does a job and then another one in any case. -/
def followedBy {α : Type} (job : Job α) (after : Job Unit) : Job α := do
  let result ← attempt job
  after
  match result with
  | .ok value => return value
  | .error departure => throw departure

/-- Takes the signals that were sent to the interpreter's process. -/
def takeSignals : Job Unit := do
  let i ← get
  let (mine, others) := i.machine.signals.partition (·.1 == i.process)
  set { i with machine := { i.machine with signals := others } }
  for (_, signal) in mine do receive signal

end Job

end LineShell.Toolbox.Script
