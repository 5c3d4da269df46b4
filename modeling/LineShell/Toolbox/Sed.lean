import LineShell.Toolbox.Basic
import LineShell.Toolbox.Pattern

/-!
# Editing a stream of lines

`sed` runs the commands of its script on one line after the other, and writes what they leave. A
command has no, one or two addresses, which say on which lines it works, and is one letter: `p`
writes the line at once, `=` its number, `d` drops it, `q` writes it and stops, `y` turns octets
into others, and `s` replaces what a pattern matches.
-/

namespace LineShell.Toolbox.Sed

/-- Which lines an address names. -/
inductive Address where
  | line (number : Nat)
  | last
  | matching (pattern : Pattern)

/-- How matches are replaced. -/
structure Substitution where
  pattern : Pattern
  /-- Octets; none stands for the whole match. -/
  replacement : List (Option UInt8)
  everywhere : Bool
  prints : Bool

/-- What a command does. -/
inductive Act where
  | print
  | number
  | delete
  | quit
  | turn (old new : Bytes)
  | substitute (how : Substitution)

/-- A command. -/
structure Command where
  first : Option Address
  second : Option Address
  act : Act

/-- A line of the input. -/
structure InputLine where
  number : Nat
  text : Bytes
  /-- A line feed ends it. -/
  ended : Bool
  isLast : Bool

/-- Whether an address names a line. -/
def Address.names (line : InputLine) : Address → Bool
  | .line number => line.number == number
  | .last => line.isLast
  | .matching pattern => (pattern.find? true line.text).isSome

/-- Whether a command works on a line. -/
def Command.selects (command : Command) (line : InputLine) : Bool :=
  match command.first, command.second with
  | none, _ => true
  | some (.line first), some (.line last) => first ≤ line.number && line.number ≤ max first last
  | some (.line first), some _ => first ≤ line.number
  | some address, _ => address.names line

/-- What a match is replaced by. -/
def Substitution.replacementOf (how : Substitution) (found : Bytes) : Bytes :=
  how.replacement.flatMap fun
    | some octet => [octet]
    | none => found

/-- Replaces matches in what is left of a line. Right behind a match an empty one does not count. -/
def Substitution.replaceFrom (how : Substitution) : Nat → Bool → Bool → Bytes → Bytes × Bool
  | 0, _, _, text => (text, false)
  | n + 1, isStart, behindMatch, text =>
    match how.pattern.find? isStart text with
    | none => (text, false)
    | some (place, length) =>
      let before := text.take place
      let found := (text.drop place).take length
      let rest := text.drop (place + length)
      let isEmptyBehind := behindMatch && place + length = 0
      let written := if isEmptyBehind then [] else how.replacementOf found
      if !how.everywhere then (before ++ written ++ rest, true)
      else
        let passed := if length = 0 then rest.take 1 else []
        if length = 0 && rest.isEmpty then (before ++ written, !isEmptyBehind)
        else
          let (others, replaced) :=
            how.replaceFrom n false (length != 0) (rest.drop passed.length)
          (before ++ written ++ passed ++ others, !isEmptyBehind || replaced)

/-- Where commands have led: the line as it is now, what was written of it, each text with whether a
line feed ends it, whether the line is written at the end, and whether the script stops behind
it. -/
structure Progress where
  text : Bytes
  written : List (Bytes × Bool)
  kept : Bool
  stops : Bool

/-- Runs commands on a line. -/
def runCommands (line : InputLine) (p : Progress) : List Command → Progress
  | [] => p
  | command :: rest =>
    if !command.selects { line with text := p.text } then runCommands line p rest
    else match command.act with
      | .print => runCommands line { p with written := p.written ++ [(p.text, line.ended)] } rest
      | .number =>
        runCommands line
          { p with written := p.written ++ [(octets line.number.repr, true)] } rest
      | .turn old new =>
        let turned := p.text.map fun octet => ((old.zip new).lookup octet).getD octet
        runCommands line { p with text := turned } rest
      | .delete => { p with kept := false }
      | .quit => { p with stops := true }
      | .substitute how =>
        let (text, replaced) := how.replaceFrom (p.text.length + 2) true false p.text
        runCommands line
          { p with
            text := text
            written := p.written ++
              if replaced && how.prints then [(text, line.ended)] else [] } rest

/-- Runs a script over lines. Answers what is written, and how many lines were looked at if the
script stopped. -/
def edit (quiet : Bool) (script : List Command) :
    List InputLine → List (Bytes × Bool) × Option Nat
  | [] => ([], none)
  | line :: rest =>
    let p := runCommands line ⟨line.text, [], true, false⟩ script
    let written := p.written ++ if p.kept && !quiet then [(p.text, line.ended)] else []
    if p.stops then (written, some line.number)
    else
      let (others, stopped) := edit quiet script rest
      (written ++ others, stopped)

/-- Texts as they are written: a line feed is left out behind the last one only. -/
def shown : List (Bytes × Bool) → Bytes
  | [] => []
  | [(text, ended)] => if ended then text ++ [lineFeed] else text
  | (text, _) :: rest => text ++ lineFeed :: shown rest

/-- Cuts a text at a delimiter that no backslash quotes. -/
def cutAtDelimiter (delimiter : Char) : List Char → Option (List Char × List Char)
  | [] => none
  | '\\' :: c :: rest => (cutAtDelimiter delimiter rest).map fun (text, rest) =>
    (if c == delimiter then c :: text else '\\' :: c :: text, rest)
  | c :: rest =>
    if c == delimiter then some ([], rest)
    else (cutAtDelimiter delimiter rest).map fun (text, rest) => (c :: text, rest)

/-- The pieces of a replacement. -/
def replacementOf : List Char → List (Option UInt8)
  | [] => []
  | '&' :: rest => none :: replacementOf rest
  | '\\' :: c :: rest =>
    some (if c == 'n' then lineFeed else Pattern.octetOf c) :: replacementOf rest
  | c :: rest => some (Pattern.octetOf c) :: replacementOf rest

/-- Reads an address, if there is one. -/
def readAddress : List Char → Option (Option Address × List Char)
  | '$' :: rest => some (some .last, rest)
  | '/' :: rest => do
    let (text, rest) ← cutAtDelimiter '/' rest
    return (some (.matching (← Pattern.ofText? text)), rest)
  | text =>
    let digits := text.takeWhile Char.isDigit
    some ((decimal? digits).map .line, text.drop digits.length)

/-- Reads the pattern, the replacement and the flags of a substitution. -/
def readSubstitution : List Char → Option (Substitution × List Char)
  | [] => none
  | delimiter :: rest => do
    let (pattern, rest) ← cutAtDelimiter delimiter rest
    let (replacement, rest) ← cutAtDelimiter delimiter rest
    let flags := rest.takeWhile fun c => c == 'g' || c == 'p'
    return (⟨← Pattern.ofText? pattern, replacementOf replacement, flags.contains 'g',
      flags.contains 'p'⟩, rest.drop flags.length)

/-- Reads the octets that are turned into others. -/
def readTurning : List Char → Option (Act × List Char)
  | [] => none
  | delimiter :: rest => do
    let (old, rest) ← cutAtDelimiter delimiter rest
    let (new, rest) ← cutAtDelimiter delimiter rest
    if old.length = new.length then
      some (.turn (old.map Pattern.octetOf) (new.map Pattern.octetOf), rest)
    else none

/-- Reads what a command does. -/
def readAct : List Char → Option (Act × List Char)
  | 'p' :: rest => some (.print, rest)
  | '=' :: rest => some (.number, rest)
  | 'y' :: rest => readTurning rest
  | 'd' :: rest => some (.delete, rest)
  | 'q' :: rest => some (.quit, rest)
  | 's' :: rest => (readSubstitution rest).map fun (how, rest) => (.substitute how, rest)
  | _ => none

/-- Reads a command. -/
def readCommand (text : List Char) : Option (Command × List Char) := do
  let (first, rest) ← readAddress text
  let (second, rest) ← match first, rest with
    | some _, ',' :: rest => readAddress rest
    | _, rest => some (none, rest)
  let (act, rest) ← readAct rest
  return (⟨first, second, act⟩, rest)

/-- Whether a character stands between commands. -/
def separates (c : Char) : Bool := c == ';' || c == ' ' || c == '\n'

/-- Reads a script; a step for every character is enough. -/
def readScript : Nat → List Char → Option (List Command)
  | 0, _ => some []
  | n + 1, text => do
    let text := text.dropWhile separates
    if text.isEmpty then return []
    let (command, rest) ← readCommand text
    if rest.head?.any (!separates ·) then none
    else return command :: (← readScript n rest)

/-- The lines of inputs. Only the last one of all may be without a line feed. -/
def numbered (inputs : List Bytes) : List InputLine :=
  let lines := inputs.flatMap linesOf
  lines.mapIdx fun i line =>
    let isLast := i + 1 == lines.length
    ⟨i + 1, body line, !isLast || line.getLast? == some lineFeed, isLast⟩

/-- The inputs that can be read, up to the first that fails while it is read, and the status for
those that cannot. -/
def readSources (call : Call) : List String → Action (List Input × Nat)
  | [] => return ([], 0)
  | path :: rest => do
    match ← if path = "-" then inputStream call else fileInput call path with
    | .ok input =>
      let (inputs, code) ← readSources call rest
      return (input :: inputs, code)
    | .error fault =>
      if showsOnReading fault then
        report call ("read error on " ++ (if path = "-" then "stdin" else path) ++ ": " ++
          reason fault)
        return ([], 4)
      else
        report call ("can't read " ++ path ++ ": " ++ reason fault)
        let (inputs, code) ← readSources call rest
        return (inputs, max code 2)

/-- Runs a script over files. -/
def editFiles (call : Call) (quiet : Bool) (script : List Command) (paths : List String) :
    Action Ending := do
  let (inputs, code) ← readSources call paths
  let lines := numbered (inputs.map Input.known)
  let (written, stopped) := edit quiet script lines
  if paths.contains "-" then
    match stopped with
    | some count =>
      let used := (lines.take count).flatMap fun line =>
        if line.ended then line.text ++ [lineFeed] else line.text
      useInput call 4096 used.length
    | none => modify fun m => (m.takeAll call.streams.input).1
  if isClosed (← get) call.streams.output then
    report call ("couldn't close stdout: " ++ reason (.refused .badDescriptor))
    return .exited 4
  match ← emit call (shown written) with
  | some fault =>
    report call ("couldn't flush stdout: " ++ reason fault)
    return .exited 4
  | none =>
    if stopped.isNone && inputs.any (!·.cycle.isEmpty) then
      endForEver call "couldn't write 1 item to stdout" 4
    else return .exited code

end Sed

open Sed in
/-- Edits lines by a script. -/
def sed : Program := program fun call =>
  withSwitches call { letters := [('n', false), ('e', true)] } 1 fun reading => do
    let given := reading.given.filterMap (·.value)
    let operands := if given.isEmpty then reading.operands
      else joined "\n" given :: reading.operands
    match operands with
    | [] =>
      complain call ("Usage: " ++ calledName call ++
        " [OPTION]... \x7bscript-only-if-no-other-script\x7d [input-file]...\n")
      return .exited 1
    | text :: paths =>
      let text := (octets text).map charOf
      match readScript (text.length + 1) text with
      | some script =>
        editFiles call (reading.has 'n') script (if paths.isEmpty then ["-"] else paths)
      | none =>
        report call "-e expression #1, char 1: unknown command"
        return .exited 1

end LineShell.Toolbox
