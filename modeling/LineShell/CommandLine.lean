import LineShell.Command
import LineShell.Text.Blank

/-!
# Reading a command line

A line is read in one pass, one character at a time. `Scan` is all that is known between two
characters: the commands already complete, the parts of the command under way, and the place within
the line (`Place`). No line is refused: an open quote ends with the line, a redirect without a
destination and a stage without arguments are dropped.

## Implementation notes

Lookahead is replaced by places. A digit at the start of a token waits in `Place.digit` until the
next character tells whether it names a descriptor, and `Place.arrow` waits for a second `>`.
Reading a line in two parts is therefore reading the second part from where the first one ended
(`Scan.read_append`).
-/

namespace LineShell

/-- How the next character of a word is taken. -/
inductive Quoting where
  /-- Outside every quote. -/
  | plain
  /-- After a backslash outside quotes. -/
  | escaped
  /-- Between single quotes. -/
  | single
  /-- Between double quotes. -/
  | double
  /-- After a backslash between double quotes. -/
  | doubleEscaped
  deriving DecidableEq, Repr

/-- The quoting after one more character of a word. -/
def Quoting.next : Quoting → Char → Quoting
  | .plain, c =>
    if c = '\'' then .single else if c = '"' then .double else if c = '\\' then .escaped else .plain
  | .escaped, _ => .plain
  | .single, c => if c = '\'' then .plain else .single
  | .double, c => if c = '"' then .plain else if c = '\\' then .doubleEscaped else .double
  | .doubleEscaped, _ => .double

/-- What a character adds to its word. Between double quotes a backslash is taken literally unless
a double quote or a backslash follows it. -/
def Quoting.adds : Quoting → Char → List Char
  | .plain, c => if c = '\'' ∨ c = '"' ∨ c = '\\' then [] else [c]
  | .escaped, c => [c]
  | .single, c => if c = '\'' then [] else [c]
  | .double, c => if c = '"' ∨ c = '\\' then [] else [c]
  | .doubleEscaped, c => if c = '"' ∨ c = '\\' then [c] else ['\\', c]

/-- The quoting after a run of characters. -/
def Quoting.after (quoting : Quoting) (text : List Char) : Quoting :=
  text.foldl Quoting.next quoting

@[simp] theorem Quoting.after_nil (quoting : Quoting) : quoting.after [] = quoting := rfl

@[simp] theorem Quoting.after_cons (quoting : Quoting) (c : Char) (text : List Char) :
    quoting.after (c :: text) = (quoting.next c).after text := rfl

theorem Quoting.after_append (quoting : Quoting) (a b : List Char) :
    quoting.after (a ++ b) = (quoting.after a).after b := by
  simp [Quoting.after]

/-- Lines that end outside every quote, and not after a backslash that waits for a character. -/
def EndsPlain (line : List Char) : Prop := Quoting.plain.after line = .plain

instance (line : List Char) : Decidable (EndsPlain line) :=
  inferInstanceAs (Decidable (Quoting.plain.after line = .plain))

/-- What a word becomes when it is complete. -/
inductive Purpose where
  | argument
  | destination (target : Target) (append : Bool)
  deriving DecidableEq, Repr

/-- Where the reader stands within the line. -/
inductive Place where
  /-- Between tokens. -/
  | gap
  /-- After a digit that begins a token. -/
  | digit (d : Char)
  /-- After the `>` of a redirect. -/
  | arrow (target : Target)
  /-- Before the path of a redirect. -/
  | before (target : Target) (append : Bool)
  /-- Within a word. -/
  | word (purpose : Purpose) (quoting : Quoting) (text : String)
  deriving DecidableEq, Repr

/-- What is known of a line after some of its characters. -/
structure Scan where
  commands : List Command
  arguments : List String
  redirects : List Redirect
  place : Place
  deriving DecidableEq, Repr

namespace Scan

/-- Before the first character. -/
def start : Scan := ⟨[], [], [], .gap⟩

/-- Files a complete word away; empty words vanish, with the redirect that they were meant for. -/
def finishWord (s : Scan) (purpose : Purpose) (text : String) : Scan :=
  if text = "" then { s with place := .gap }
  else match purpose with
    | .argument => { s with arguments := s.arguments ++ [text], place := .gap }
    | .destination target append =>
      { s with redirects := s.redirects ++ [⟨target, text, append⟩], place := .gap }

/-- Completes the command under way; without arguments it vanishes, with its redirects. -/
def finishStage (s : Scan) : Scan :=
  match Command.ofArguments? s.arguments s.redirects with
  | some command => ⟨s.commands ++ [command], [], [], .gap⟩
  | none => ⟨s.commands, [], [], .gap⟩

/-- Takes a character that belongs to a word. -/
def intoWord (s : Scan) (purpose : Purpose) (quoting : Quoting) (text : String) (c : Char) : Scan :=
  { s with place := .word purpose (quoting.next c) ((quoting.adds c).foldl String.push text) }

/-- Takes a character between tokens. -/
def inGap (s : Scan) (c : Char) : Scan :=
  if isSeparator c then { s with place := .gap }
  else if c = '|' then s.finishStage
  else if c = '>' then { s with place := .arrow .output }
  else if c.isDigit then { s with place := .digit c }
  else s.intoWord .argument .plain "" c

/-- Takes a character where a word may go on or end. -/
def inWord (s : Scan) (purpose : Purpose) (quoting : Quoting) (text : String) (c : Char) : Scan :=
  if quoting = .plain ∧ (isSeparator c ∨ c = '|' ∨ c = '>') then (s.finishWord purpose text).inGap c
  else s.intoWord purpose quoting text c

/-- Takes a character before the path of a redirect. -/
def inBefore (s : Scan) (target : Target) (append : Bool) (c : Char) : Scan :=
  if isSeparator c then { s with place := .before target append }
  else if c = '|' ∨ c = '>' then s.inGap c
  else s.intoWord (.destination target append) .plain "" c

/-- Takes one character. -/
def step (s : Scan) (c : Char) : Scan :=
  match s.place with
  | .gap => s.inGap c
  | .digit d =>
    if c = '>' then { s with place := .arrow (Target.ofDescriptor (d.toNat - '0'.toNat)) }
    else s.inWord .argument .plain (String.singleton d) c
  | .arrow target =>
    if c = '>' then { s with place := .before target true } else s.inBefore target false c
  | .before target append => s.inBefore target append c
  | .word purpose quoting text => s.inWord purpose quoting text c

/-- Takes a run of characters. -/
def read (s : Scan) (text : List Char) : Scan := text.foldl step s

/-- Takes the end of the line, where whatever is open ends too. -/
def finish (s : Scan) : List Command :=
  match s.place with
  | .digit d => (s.finishWord .argument (String.singleton d)).finishStage.commands
  | .word purpose _ text => (s.finishWord purpose text).finishStage.commands
  | _ => s.finishStage.commands

@[simp] theorem read_nil (s : Scan) : s.read [] = s := rfl

@[simp] theorem read_cons (s : Scan) (c : Char) (text : List Char) :
    s.read (c :: text) = (s.step c).read text := rfl

theorem read_append (s : Scan) (a b : List Char) : s.read (a ++ b) = (s.read a).read b := by
  simp [read]

end Scan

/-- The pipeline that a line stands for. -/
def parseLine (line : String) : List Command :=
  (Scan.start.read line.toList).finish

end LineShell
