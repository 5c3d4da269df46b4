import LineShell.Toolbox.Script.Builtins

/-!
# Running scripts

Commands are run one after the other, also those of a pipeline: each finds all that the one before
has written. Copies of the interpreter share its machine and nothing else.

A signal that ends a process is reported by the interpreter that waited for it. When something goes
wrong with one of the special commands, the script ends; with other commands it goes on.

## Implementation notes

Every function takes a bound on how deep commands may be nested; rounds of loops and commands of a
script count as well. The table of programs is a parameter.
-/

namespace LineShell.Toolbox.Script

/-- Whether nothing stands at the end of a path. -/
def isMissing (e : Errno) : Bool := e == .noEntry || e == .notDirectory

/-- How the failure to open a file is worded. -/
def openFault (creates : Bool) (fault : FileFault) : String :=
  match fault with
  | .refused e =>
    if !isMissing e then e.libraryText
    else if creates then "Directory nonexistent" else "No such file"
  | fault => reason fault

/-- The interpreter itself as a file. -/
def interpreterPath : Text := "/bin/sh".toList

/-- The file of a command: the path that it is, or the first regular file of its name in the
directories that are searched. -/
def fileOf? (i : Interpreter) (name : Text) : Option Text :=
  if name.contains '/' then some name
  else
    let directories := ((i.value? "PATH".toList).map (cutAt ':')).getD []
    (directories.map fun directory =>
      if directory.isEmpty then name else directory ++ '/' :: name).find? fun path =>
        match i.machine.volume.lookUp i.directory (stringOf path) .follow with
        | .ok (_, ⟨_, .file _ _⟩) | .ok (_, ⟨_, .program _⟩) => true
        | _ => false

/-- Runs the file at a path in a process. A file without a header is a script. -/
def startFile (programs : Programs) (process parent : Nat) (path : Text) (words : List Text) :
    Job (Except Errno Ending) := do
  let i ← get
  let call : Call :=
    ⟨words.map stringOf, i.environment, i.directory, i.streams, process, parent, i.ignored⟩
  let started := match programs.start (stringOf path) call i.machine with
    | .error .badFormat =>
      programs.start (stringOf interpreterPath)
        { call with arguments := (interpreterPath :: path :: words.tail).map stringOf } i.machine
    | result => result
  match started with
  | .ok (m, ending) =>
    set { i with machine := m }
    Job.waitIfStarved
    return .ok ending
  | .error e => return .error e

/-- Notes how a process ended; a signal that ended it may be reported. One that never ends is waited
for for ever. -/
def noteEnding (ending : Ending) : Job Unit := do
  match ending with
  | .killed 0 => throw (.killed 0)
  | .killed signal =>
    if !Signal.silent.contains signal then
      Job.complain (textOf (Signal.description signal ++ "\n"))
  | .exited _ => pure ()
  Job.setStatus (ending.status.toNat % 256)
  Job.takeSignals

/-- Opens a file, in a new row. -/
def openAt (opening : Opening) (path : Text) : Job Nat := do
  let i ← get
  let name := stringOf path
  let opened := match opening with
    | .reading => i.machine.openSource i.directory name
    | .writing => i.machine.openFile i.directory name false
    | .appending => i.machine.openFile i.directory name true
  match opened with
  | .ok (m, row) =>
    set { i with machine := m }
    return row
  | .error fault =>
    let creates := opening != .reading
    Job.fail (textOf (if creates then "cannot create " else "cannot open ") ++ path ++
      textOf (": " ++ openFault creates fault))

/-- Puts redirects in force. -/
def divert : List Diversion → Job Unit
  | [] => return
  | .file descriptor opening path :: rest => do
    let row ← openAt opening ((← get).text path)
    modify (·.withDescriptor descriptor (some row))
    divert rest
  | .copy descriptor source :: rest => do
    let i ← get
    let text := i.text source
    if text == ['-'] then set (i.withDescriptor descriptor none)
    else match (decimal? text).bind fun n => i.descriptors.lookup n with
      | some row => set (i.withDescriptor descriptor (some row))
      | none => Job.fail (text ++ textOf (": " ++ Errno.badDescriptor.libraryText))
    divert rest

/-- Does a job while redirects are in force; the streams are afterwards as before. Answers whether
the redirects could be put in force. -/
def diverted (diversions : List Diversion) (job : Job Unit) : Job Bool := do
  let before ← get
  Job.followedBy (do
    match ← Job.attempt (divert diversions) with
    | .error .failed => return false
    | .error departure => throw departure
    | .ok _ =>
      job
      return true) <|
    modify fun i =>
      { i with
        descriptors := before.descriptors
        machine := i.machine.closeFrom before.machine.channels.length }

/-- Runs a command of the interpreter. -/
def runBuiltin (name : Text) (builtin : List Text → Job Nat) (operands : List Text) :
    Job Unit := do
  modify fun i => { i with command := some name }
  let result ← Job.attempt (builtin operands)
  modify fun i => { i with command := none }
  match result with
  | .ok status => Job.setStatus status
  | .error .failed => if Builtins.isSpecial (String.ofList name) then throw .failed
  | .error departure => throw departure

/-- Runs a command that is a file, and reports it when that fails. -/
def runFile (programs : Programs) (process parent : Nat) (name : Text) (operands : List Text) :
    Job Ending := do
  let started ← match fileOf? (← get) name with
    | some path => startFile programs process parent path (name :: operands)
    | none => pure (.error .noEntry)
  match started with
  | .ok ending => return ending
  | .error e =>
    Job.report (name ++ textOf (": " ++ if isMissing e then "not found" else e.libraryText))
    return .exited (if isMissing e || e == .linkLoop || e == .nameTooLong then 127 else 126)

/-- Runs a command whose words are known. Behind `exec` it takes the place of the interpreter. -/
def runWords (programs : Programs) (name : Text) (operands : List Text) : Job Unit := do
  let i ← get
  match Builtins.table.lookup (String.ofList name), operands with
  | some builtin, operands => runBuiltin name builtin operands
  | none, inner :: others =>
    if name != "exec".toList then
      noteEnding (← runFile programs (i.process + 1) i.process name operands)
    else match ← runFile programs i.process i.parent inner others with
      | .exited code =>
        Job.setStatus (code % 256)
        throw .ended
      | .killed signal => throw (.killed signal)
  | none, [] => noteEnding (← runFile programs (i.process + 1) i.process name [])

/-- Runs a command without keywords. Assignments in front of words hold for the command only. -/
def runSimple (programs : Programs) (assignments : List (Text × Word)) (words : List Word)
    (diversions : List Diversion) : Job Unit := do
  let fields := words.flatMap (← get).fields
  let outer := (← get).known
  let body : Job Unit := do
    for (name, word) in assignments do
      modify fun i => i.assign name (i.text word) (!fields.isEmpty)
    match fields with
    | [] => Job.setStatus 0
    | name :: operands => runWords programs name operands
    if !fields.isEmpty && !assignments.isEmpty then modify fun i => { i with known := outer }
  if !(← diverted diversions body) then
    Job.setStatus 2
    if Builtins.isSpecial (String.ofList (fields.headD [])) then throw .failed

/-- How a process ends in which a job is done. -/
def endingOf (result : Except Departure Unit) (i : Interpreter) : Ending :=
  match result with
  | .error (.killed signal) => .killed signal
  | _ => .exited i.status

/-- Does a job on a copy of the interpreter, in a process of its own with some descriptors. -/
def onCopy (process : Nat) (rows : List (Nat × Nat)) (job : Job Unit) : Job Ending := do
  let i ← get
  let copy := rows.foldl (fun i (descriptor, row) => i.withDescriptor descriptor (some row))
    { i with process := process, parent := i.process }
  let (result, after) := job.run copy
  set { i with machine := after.machine.closeFrom i.machine.channels.length }
  return endingOf result after

mutual

/-- Runs a command. -/
def execute (programs : Programs) : Nat → Command → Job Unit
  | 0, _ => throw (.killed 0)
  | n + 1, command => do
    match command with
    | .simple line assignments words diversions =>
      modify fun i => { i with line := line }
      runSimple programs assignments words diversions
    | .pipeline stages =>
      let rows := (← get).machine.channels.length
      executeStages programs n 0 ((← get).row 0) stages
      modify fun i => { i with machine := i.machine.closeFrom rows }
    | .both left right =>
      execute programs n left
      if (← get).status = 0 then execute programs n right
    | .either left right =>
      execute programs n left
      if (← get).status != 0 then execute programs n right
    | .sequence left right =>
      execute programs n left
      execute programs n right
    | .negation inner =>
      execute programs n inner
      modify fun i => { i with status := if i.status = 0 then 1 else 0 }
    | .copy inner diversions =>
      let process := (← get).process + 1
      noteEnding (← onCopy process [] (do
        divert diversions
        execute programs n inner))
    | .choice condition yes no =>
      execute programs n condition
      match (← get).status, no with
      | 0, _ => execute programs n yes
      | _, some no => execute programs n no
      | _, none => Job.setStatus 0
    | .loop until_ condition action => executeLoop programs n until_ condition action 0
    | .each name words action =>
      let fields := words.flatMap (← get).fields
      Job.setStatus 0
      executeEach programs n name action fields

/-- Runs rounds of a loop; the status of the last one counts. -/
def executeLoop (programs : Programs) : Nat → Bool → Command → Command → Nat → Job Unit
  | 0, _, _, _, _ => throw (.killed 0)
  | n + 1, until_, condition, action, status => do
    execute programs n condition
    if ((← get).status = 0) == until_ then Job.setStatus status
    else
      execute programs n action
      executeLoop programs n until_ condition action (← get).status

/-- Runs a round of a loop for each field. -/
def executeEach (programs : Programs) : Nat → Text → Command → List Text → Job Unit
  | 0, _, _, _ | _, _, _, [] => return
  | n + 1, name, action, field :: rest => do
    modify fun i => i.assign name field false
    execute programs n action
    executeEach programs n name action rest

/-- Runs the stages of a pipeline, each on a copy that reads from a row. -/
def executeStages (programs : Programs) : Nat → Nat → Nat → List Command → Job Unit
  | 0, _, _, _ | _, _, _, [] => return
  | n + 1, place, input, stage :: rest => do
    let i ← get
    let process := i.process + 1 + place
    if rest.isEmpty then
      noteEnding (← onCopy process [(0, input)] (execute programs n stage))
    else
      let (m, pipe) := i.machine.addChannel (.stream .pipe)
      set { i with machine := m }
      noteEnding (← onCopy process [(0, input), (1, pipe)] (execute programs n stage))
      executeStages programs n (place + 1) pipe rest

end

/-- Runs the commands of a script line by line, up to what is wrong with it. -/
def runLines (programs : Programs) (fault : Option SyntaxFault) :
    Nat → List Placed → Job Unit
  | 0, _ => return
  | n + 1, tokens => do
    match readNext tokens, fault with
    | .ok none, none => return
    | .ok (some (command, rest)), fault =>
      if rest.isEmpty && fault.isSome then stop fault
      else
        execute programs n command
        runLines programs fault n rest
    | .error fault, _ => stop (some fault)
    | .ok none, fault => stop fault
where
  /-- Reports what is wrong. -/
  stop (fault : Option SyntaxFault) : Job Unit := do
    match fault with
    | none => return
    | some fault =>
      modify fun i => { i with line := fault.line }
      Job.fail (textOf ("Syntax error: " ++ fault.text))

end LineShell.Toolbox.Script
