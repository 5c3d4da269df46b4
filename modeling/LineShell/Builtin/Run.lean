import LineShell.Builtin.Basic
import LineShell.Builtin.Failure
import LineShell.Builtin.Grammar
import LineShell.History.File
import LineShell.Lookup
import LineShell.Redirection

/-!
# Running a builtin

`execute` is what a builtin does when nothing goes wrong on the way; `run` reports a failure and
turns it into status one. A failed builtin leaves the shell as it was.

The shell ignores the signal that comes when nobody reads what is written, so a builtin that runs
within the shell reports this like any other failure.
-/

namespace LineShell.Builtin

/-- What a builtin leaves behind: the machine, and the shell with the flow unless it failed. -/
abbrev Result := Machine × Except BuiltinFailure (Shell × Flow)

/-- Ends with some text on a channel. -/
def answer (m : Machine) (row : Nat) (text : String) (shell : Shell) (code : Int) : Result :=
  match m.print row text with
  | .ok m => (m, .ok (shell, .proceed code))
  | .error fault => (m, .error (.stream fault))

/-- The status that `exit` asks for. -/
def exitStatus : List String → Except BuiltinFailure Int
  | [] => .ok 0
  | [text] =>
    match Numeral.read .signed32 text with
    | .ok code => .ok code
    | .error fault => .error (.statusNotNumeric text fault)
  | _ => .error .tooManyStatuses

/-- Reads options, and goes on with them unless the help text or a usage fault is the answer. -/
def withOptions (g : Options.Grammar) (operands : List String) (streams : Streams) (shell : Shell)
    (m : Machine) (go : Options.Given → Result) : Result :=
  match g.read operands with
  | .given given => go given
  | .help text => answer m streams.output text shell 0
  | .faulty fault => answer m streams.error fault.message shell 2

/-- One line of `type`, and whether the name is known. -/
def describeName (m : Machine) (shell : Shell) (text : String) : String × Bool :=
  if (ofName? text).isSome then (text ++ " is a shell builtin\n", true)
  else match Lookup.find? m.volume shell.directory shell.environment text with
    | some path => (text ++ " is " ++ path ++ "\n", true)
    | none => (text ++ ": not found\n", false)

/-- Tells what names stand for. -/
def typeNames (names : List String) (streams : Streams) (shell : Shell) (m : Machine) : Result :=
  let lines := names.map (describeName m shell)
  answer m streams.output (String.join (lines.map (·.1))) shell
    (if lines.all (·.2) then 0 else 1)

/-- Where `cd` is to go. -/
inductive CdTarget where
  | directory (path : RawPath)
  | homeNotSet
  | unsupported
  deriving DecidableEq, Repr

/-- A text without the slashes at its start. -/
def dropSlashes (text : List Char) : String := String.ofList (text.dropWhile (· == '/'))

/-- The directory that an operand of `cd` means. Paths are collapsed as text, before any directory
is looked at. -/
def cdTarget (target : String) (current : RawPath) (home : Option String) : CdTarget :=
  match target.toList with
  | '/' :: _ => .directory (RawPath.normalise (octets target))
  | '.' :: _ => .directory (RawPath.normalise (RawPath.join current (octets target)))
  | '~' :: rest =>
    match home with
    | some home =>
      .directory (RawPath.normalise (RawPath.join (octets home) (octets (dropSlashes rest))))
    | none => .homeNotSet
  | _ => .unsupported

/-- Why a directory could not be entered, in the words of `cd`. -/
def cdReason : FileFault → String
  | .refused e =>
    if e = .noEntry then "No such file or directory"
    else if e = .accessDenied then "Permission denied"
    else e.fileReport
  | fault => fault.message

/-- Changes the current directory. -/
def changeDirectory (target : String) (streams : Streams) (shell : Shell) (m : Machine) : Result :=
  match m.volume.pathOfDirectory shell.directory with
  | .error fault => (m, .error (.noDirectory "cd" fault))
  | .ok current =>
    match cdTarget target current shell.environment.home with
    | .homeNotSet =>
      answer m streams.output ("cd: " ++ target ++ ": $HOME not set\n") shell 1
    | .unsupported =>
      answer m streams.output ("cd: " ++ target ++ ": unsupported path\n") shell 1
    | .directory path =>
      match m.volume.enter shell.directory path with
      | .ok directory => (m, .ok ({ shell with directory := directory }, .proceed 0))
      | .error fault =>
        answer m streams.error ("cd: " ++ target ++ ": " ++ cdReason fault ++ "\n") shell 1

/-- A number at the right end of a field of five characters. -/
def field (n : Nat) : String :=
  String.ofList (List.replicate (5 - n.repr.length) ' ') ++ n.repr

/-- One line of the listing of `history`. -/
def historyLine (entry : Nat × String) : String := field entry.1 ++ "  " ++ entry.2 ++ "\n"

/-- Keeps the history that an operation on a file left. -/
def keepHistory (shell : Shell) (path : String) : Machine × Except FileFault History → Result
  | (m, .ok kept) => (m, .ok ({ shell with history := kept }, .proceed 0))
  | (m, .error fault) => (m, .error (.historyFile path fault))

/-- Lists the history, or reads or writes a history file. -/
def showHistory (given : Options.Given) (streams : Streams) (shell : Shell) (m : Machine) :
    Result :=
  let h := shell.history
  match given.value? "-r", given.value? "-w", given.value? "-a" with
  | some path, _, _ => keepHistory shell path (m, h.load m.volume shell.directory path)
  | none, some path, _ => keepHistory shell path (h.save m shell.directory path)
  | none, none, some path => keepHistory shell path (h.appendTo m shell.directory path)
  | none, none, none =>
    match given.operand?.map (Numeral.read .unsigned64) with
    | some (.ok 0) => (m, .error .countNotPositive)
    | some (.ok count) =>
      answer m streams.output (String.join ((h.recent count.toNat).map historyLine)) shell 0
    | _ => answer m streams.output (String.join ((h.recent 0).map historyLine)) shell 0

/-- What a builtin does. -/
def execute (b : Builtin) (operands : List String) (streams : Streams) (shell : Shell)
    (m : Machine) : Result :=
  match b with
  | .exit =>
    match exitStatus operands with
    | .ok code => (m, .ok (shell, .exit code))
    | .error failure => (m, .error failure)
  | .echo => answer m streams.output (joined " " operands ++ "\n") shell 0
  | .type => withOptions typeGrammar operands streams shell m fun given =>
      typeNames given.operands streams shell m
  | .pwd => withOptions pwdGrammar operands streams shell m fun _ =>
      match m.volume.pathOfDirectory shell.directory with
      | .ok path => answer m streams.output (Utf8.lossy path ++ "\n") shell 0
      | .error fault => (m, .error (.noDirectory "pwd" fault))
  | .cd => withOptions cdGrammar operands streams shell m fun given =>
      changeDirectory (given.operand?.getD "~") streams shell m
  | .history => withOptions historyGrammar operands streams shell m fun given =>
      showHistory given streams shell m

/-- Runs a builtin. A failure becomes a line on the error stream and status one. -/
def run (b : Builtin) (operands : List String) (streams : Streams) (shell : Shell) (m : Machine) :
    Machine × Shell × Flow :=
  match b.execute operands streams shell m with
  | (m, .ok (shell, flow)) => (m, shell, flow)
  | (m, .error failure) =>
    (m.printOrSkip streams.error (failure.message ++ "\n"), shell, .proceed 1)

end LineShell.Builtin
