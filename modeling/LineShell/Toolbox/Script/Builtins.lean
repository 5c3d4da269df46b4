import LineShell.Toolbox.Script.Interpreter
import LineShell.Toolbox.Stty

/-!
# Commands of the interpreter

These commands are run by the interpreter itself. Each is a job that answers a status.
-/

namespace LineShell.Toolbox.Script.Builtins

/-- Writes on the output stream; output that is refused is reported. -/
def say (text : Text) : Job Nat := do
  if text.isEmpty then return 0
  else if ← Job.write 1 (octetsOf text) then return 0
  else
    Job.report (((← get).command.getD []) ++ textOf ": I/O error")
    return 1

/-- The number that an operand is. -/
def number (text : Text) : Job Nat :=
  match decimal? text with
  | some n => if n ≤ 2147483647 then return n else Job.fail (textOf "Illegal number: " ++ text)
  | none => Job.fail (textOf "Illegal number: " ++ text)

/-- The character that an escape stands for. -/
def escape? (c : Char) : Option Char :=
  match c with
  | '\\' => some '\\'
  | 'n' => some '\n'
  | 'r' => some '\r'
  | 't' => some '\t'
  | _ => none

/-- A text with its escapes taken away. -/
def unescape : Text → Text
  | '\\' :: c :: rest =>
    match escape? c with
    | some meant => meant :: unescape rest
    | none => '\\' :: c :: unescape rest
  | c :: rest => c :: unescape rest
  | [] => []

/-- Writes operands with blanks between them. -/
def echo (operands : List Text) : Job Nat :=
  match operands with
  | ['-', 'n'] :: rest => say (unescape (rest.intersperse [' ']).flatten)
  | operands => say (unescape (operands.intersperse [' ']).flatten ++ ['\n'])

/-- What a format says, with operands put in for its directives, and the operands left; otherwise a
directive that is unknown. -/
def formatOnce : List Text → Text → Except Text (Text × List Text)
  | operands, '%' :: '%' :: rest => do
    let (text, operands) ← formatOnce operands rest
    return ('%' :: text, operands)
  | operands, '%' :: 's' :: rest => do
    let (text, left) ← formatOnce operands.tail rest
    return (operands.headD [] ++ text, left)
  | _, '%' :: rest => .error ('%' :: rest.take 1)
  | operands, '\\' :: c :: rest => do
    let (text, operands) ← formatOnce operands rest
    return ((match escape? c with
      | some meant => [meant]
      | none => ['\\', c]) ++ text, operands)
  | operands, c :: rest => do
    let (text, operands) ← formatOnce operands rest
    return (c :: text, operands)
  | operands, [] => .ok ([], operands)

/-- What a format says over and over until the operands are used up. -/
def formatAll (format : Text) : Nat → List Text → Except Text Text
  | 0, _ => .ok []
  | n + 1, operands => do
    let (text, left) ← formatOnce operands format
    if left.isEmpty || left.length = operands.length then return text
    else return text ++ (← formatAll format n left)

/-- Writes operands by a format. -/
def printf (operands : List Text) : Job Nat :=
  match operands with
  | [] => Job.fail (textOf "usage: printf format [arg ...]")
  | format :: operands =>
    match formatAll format (operands.length + 1) operands with
    | .ok text => say text
    | .error directive => Job.fail (directive ++ textOf ": invalid directive")

/-- Cuts a line into so many fields; the last one is what is left. -/
def readFields : Nat → Text → List Text
  | 0, _ => []
  | 1, line =>
    [((line.dropWhile Bit.isBlank).reverse.dropWhile Bit.isBlank).reverse]
  | n + 1, line =>
    let line := line.dropWhile Bit.isBlank
    let field := line.takeWhile (!Bit.isBlank ·)
    field :: readFields n (line.drop field.length)

/-- Reads a line from the input stream into variables. -/
def read (names : List Text) : Job Nat := do
  if names.isEmpty then Job.fail (textOf "arg count")
  let i ← get
  let (octets, cycle) := i.machine.unread (i.row 0)
  let known := Machine.unroll octets cycle enough
  let line := known.takeWhile (· != lineFeed)
  let complete := line.length < known.length
  modify fun i =>
    { i with machine := i.machine.consume (i.row 0) (line.length + if complete then 1 else 0) }
  if !complete then Job.waitIfStarved
  for (name, value) in names.zip (readFields names.length (textOfOctets line)) do
    if !isName name then Job.fail (name ++ textOf ": bad variable name")
    modify fun i => i.assign name value false
  return if complete then 0 else 1

/-- Goes to a directory. -/
def cd (operands : List Text) : Job Nat := do
  let i ← get
  let path := operands.headD ((i.value? "HOME".toList).getD [])
  match i.machine.volume.enter i.directory (octetsOf path) with
  | .ok directory =>
    set { i with directory := directory }
    return 0
  | .error _ => Job.fail (textOf "can't cd to " ++ path)

/-- Shows the current directory. -/
def pwd : Job Nat := do
  let i ← get
  say (textOfOctets ((i.machine.volume.pathOfDirectory i.directory).toOption.getD []) ++ ['\n'])

/-- Drops the first operand of the script. -/
def shift : Job Nat := do
  let i ← get
  if i.operands.isEmpty then Job.fail (textOf "can't shift that many")
  set { i with operands := i.operands.tail }
  return 0

/-- Decides a condition on texts, or whether a descriptor is a terminal. -/
def test (operands : List Text) : Job Nat := do
  let i ← get
  let answer (holds : Bool) : Job Nat := return if holds then 0 else 1
  match operands with
  | [] => answer false
  | [text] => answer (!text.isEmpty)
  | [operator, text] =>
    match String.ofList operator with
    | "-t" =>
      answer ((decimal? text).any fun n => (Stty.terminalOf? i.machine (i.row n)).isSome)
    | "-n" => answer (!text.isEmpty)
    | "-z" => answer text.isEmpty
    | _ => Job.fail (operator ++ textOf ": unexpected operator")
  | [left, operator, right] =>
    match String.ofList operator with
    | "=" => answer (left == right)
    | "!=" => answer (left != right)
    | _ => Job.fail (operator ++ textOf ": unexpected operator")
  | _ :: _ :: operator :: _ => Job.fail (operator ++ textOf ": unexpected operator")

/-- Decides a condition that a bracket closes. -/
def bracket (operands : List Text) : Job Nat := do
  if operands.getLast? != some [']'] then Job.fail (textOf "missing ]")
  test operands.dropLast

/-- How `kill` is called. -/
def killUsage : String :=
  "Usage: kill [-s sigspec | -signum | -sigspec] [pid | job]... or\nkill -l [exitstatus]"

/-- The signal that a text names, by its number or its name. -/
def signalOf? (text : Text) : Option Nat :=
  match decimal? text with
  | some n => if n ≤ Signal.last then some n else none
  | none => (Signal.ofName? (stringOf text)).filter (· != 0)

/-- Whether a process is there to be sent a signal: those that wait for this one are. -/
def isAlive (i : Interpreter) (process : Nat) : Bool :=
  process == i.process || process == i.parent || process == i.root ||
    (process < i.parent && i.parent < process + 100)

/-- Sends a signal to a process. No process belongs to a group, which a dash stands before. -/
def sendTo (signal : Nat) (target : Text) : Job Nat := do
  let i ← get
  let isGroup := target.head? == some '-'
  let process ← number (if isGroup then target.tail else target)
  if isGroup || !isAlive i process then
    Job.report (textOf "No such process\n")
    return 1
  else if signal = 0 then return 0
  else if process = i.process then
    Job.receive signal
    return 0
  else
    set { i with
      machine := { i.machine with signals := i.machine.signals ++ [(process, signal)] } }
    return 0

/-- Sends signals. -/
def kill (operands : List Text) : Job Nat := do
  let (signal, targets) ← match operands with
    | ['-', 's'] :: name :: rest =>
      match signalOf? name with
      | some signal => pure (signal, rest)
      | none => Job.fail (textOf "invalid signal number or name: " ++ name)
    | ('-' :: c :: letters) :: rest =>
      match signalOf? (c :: letters) with
      | some signal => pure (signal, rest)
      | none => Job.fail (textOf "Illegal option -" ++ [c])
    | operands => pure (15, operands)
  if targets.isEmpty then Job.fail (textOf killUsage)
  let answers ← targets.mapM (sendTo signal)
  return if answers.all (· == 0) then 0 else 1

/-- Ends the script. -/
def exit (operands : List Text) : Job Nat := do
  if let text :: _ := operands then Job.setStatus ((← number text) % 256)
  throw .ended

/-- All commands of the interpreter. -/
def table : List (String × (List Text → Job Nat)) :=
  [(":", fun _ => return 0), ("true", fun _ => return 0), ("false", fun _ => return 1),
   ("[", bracket), ("cd", cd), ("echo", echo), ("exit", exit), ("kill", kill), ("printf", printf),
   ("pwd", fun _ => pwd), ("read", read), ("shift", fun _ => shift), ("test", test)]

/-- Commands whose failure ends the script. -/
def isSpecial (name : String) : Bool := name == ":" || name == "exit" || name == "shift"

end LineShell.Toolbox.Script.Builtins
