import LineShell.Toolbox.Script.Running

/-!
# The script interpreter

`sh` runs the text behind `-c`, the file that is named, or what its input stream holds. The operands
of the script come last; the first one behind a text is the script's name.
-/

namespace LineShell.Toolbox.Sh

open Script

/-- The interpreter before it runs a script. -/
def begun (call : Call) (m : Machine) (name : String) (operands : List String) : Interpreter :=
  let inherited := call.environment.entries.foldl (fun (sofar : List Variable) (name, value) =>
    if !isName (textOf name) then sofar else sofar ++ [⟨textOf name, textOf value, true⟩]) []
  let path : Variable :=
    ⟨textOf "PATH", textOf "/usr/local/sbin:/usr/local/bin:/usr/sbin:/usr/bin:/sbin:/bin", false⟩
  { machine := m
    descriptors := [(0, call.streams.input), (1, call.streams.output), (2, call.streams.error)]
    name := textOf name
    operands := operands.map textOf
    known := ⟨textOf "PPID", textOf call.parent.repr, false⟩ :: inherited ++ [path]
    directory := call.directory
    status := 0
    line := 0
    command := none
    ignored := call.ignored
    root := call.process
    process := call.process
    parent := call.parent }

/-- Commands nested in one another, rounds of a loop and commands of a script, at most. -/
def deepest : Nat := 1000000

/-- Runs a script to its end. Zeros in it do not count. -/
def runScript (programs : Programs) (i : Interpreter) (script : Bytes) : Machine × Ending :=
  let rows := i.machine.channels.length
  let text := (script.filter (· != 0)).map charOf
  let (tokens, fault) := tokensFrom (text.length + 1) 1 text
  let (result, after) := (runLines programs fault deepest tokens).run i
  (after.machine.closeFrom rows, endingOf result after)

/-- Runs a script on the machine. -/
def act (programs : Programs) (call : Call) (script : Bytes) (name : String)
    (operands : List String) : Action Ending :=
  modifyGet fun m =>
    let (m, ending) := runScript programs (begun call m name operands) script
    (ending, m)

/-- Reports a current directory that has been removed, which is no hindrance. -/
def checkDirectory (call : Call) : Action Unit := do
  match (← get).volume.pathOfDirectory call.directory with
  | .ok _ => return
  | .error fault => report call ("0: getcwd() failed: " ++ reason fault)

/-- Reports that a script cannot be run, and ends. -/
def refuse (call : Call) (text : String) : Action Ending := do
  report call ("0: " ++ text)
  return .exited 2

end Sh

open Sh in
/-- Runs scripts. -/
def sh (programs : Programs) : Program := program fun call => do
  checkDirectory call
  match operands call with
  | [] =>
    let (m, script, _) := (← get).takeAll call.streams.input
    set m
    act programs call script (calledName call) []
  | ["-c"] => Sh.refuse call "-c requires an argument"
  | "-c" :: text :: rest =>
    act programs call (octets text) (rest.headD (calledName call)) rest.tail
  | path :: rest =>
    match (← get).volume.readFile call.directory path with
    | .ok script => act programs call script path rest
    | .error fault =>
      if showsOnReading fault then return .exited 0
      else Sh.refuse call ("cannot open " ++ path ++ ": " ++ Script.openFault false fault)

end LineShell.Toolbox
