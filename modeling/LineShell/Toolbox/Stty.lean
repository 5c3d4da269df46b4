import LineShell.Toolbox.Basic

/-!
# Settings of the terminal

`stty` shows the mode of the terminal that is its input stream, or changes it. All changes of a call
are made at once, and none if one of them is unknown.
-/

namespace LineShell.Toolbox.Stty

/-- Settings by the group in which they are shown. -/
def groups : List (List String) :=
  [["parenb", "parodd", "cmspar", "cs8", "hupcl", "cstopb", "cread", "clocal", "crtscts"],
   ["ignbrk", "brkint", "ignpar", "parmrk", "inpck", "istrip", "inlcr", "igncr", "icrnl", "ixon",
    "ixoff", "iuclc", "ixany", "imaxbel", "iutf8"],
   ["opost", "olcuc", "ocrnl", "onlcr", "onocr", "onlret", "ofill", "ofdel", "nl0", "cr0", "tab0",
    "bs0", "vt0", "ff0"],
   ["isig", "icanon", "iexten", "echo", "echoe", "echok", "echonl", "noflsh", "xcase", "tostop",
    "echoprt", "echoctl", "echoke", "flusho", "extproc"]]

/-- Characters in a line. -/
def lineWidth : Nat := 80

/-- Texts in lines of limited width, with a blank between neighbours. -/
def wrapped (items : List String) : String :=
  let lines := items.foldl (fun (lines : List String) item =>
    match lines with
    | [] => [item]
    | line :: before =>
      if lineWidth - line.length ≤ item.length then item :: line :: before
      else (line ++ " " ++ item) :: before) []
  String.join (lines.reverse.map (· ++ "\n"))

/-- All of a mode. -/
def showAll (mode : TerminalMode) : String :=
  "speed 38400 baud; rows 0; columns 0; line = 0;\n" ++
  "intr = ^C; quit = ^\\; erase = ^?; kill = ^U; eof = ^D; eol = <undef>;\n" ++
  "eol2 = <undef>; swtch = <undef>; start = ^Q; stop = ^S; susp = ^Z; rprnt = ^R;\n" ++
  "werase = ^W; lnext = ^V; discard = ^O; min = " ++ mode.minimum.repr ++ "; time = " ++
  mode.time.repr ++ ";\n" ++
  String.join (groups.map fun group =>
    wrapped (group.map fun name => TerminalMode.flag name (mode.isOn name)))

/-- Why settings are refused. -/
inductive Fault where
  | unknown (setting : String)
  | missing (setting : String)
  | noNumber (text : String)
  | tooLarge (text : String)

/-- Reports a fault, and ends. -/
def refuseSettings (call : Call) : Fault → Action Ending
  | .unknown setting => refuse call 1 ("invalid argument " ++ quoteText setting)
  | .missing setting => refuse call 1 ("missing argument to " ++ quoteText setting)
  | .noNumber text => do
    report call ("invalid integer argument: " ++ quoteText text)
    return .exited 1
  | .tooLarge text => do
    report call
      ("invalid integer argument: " ++ quoteText text ++ ": Numerical result out of range")
    return .exited 1

/-- The largest number that a read can wait for. -/
def mostWaits : Nat := 255

/-- A number of something that a read waits for. -/
def readWaits (text : String) : Except Fault Nat :=
  match decimal? text.toList with
  | none => .error (.noNumber text)
  | some n => if n ≤ mostWaits then .ok n else .error (.tooLarge text)

/-- Turns several settings on or off. -/
def turnAll (mode : TerminalMode) (names : List String) (on : Bool) : TerminalMode :=
  names.foldl (fun mode name => (mode.switch? name on).getD mode) mode

/-- One setting that is on or off, or several under one name. -/
def applyOne (mode : TerminalMode) (setting : String) : Except Fault TerminalMode :=
  let changed := match setting with
    | "raw" | "-cooked" =>
      let inputs := groups[1]?.getD []
      some { turnAll mode (["opost", "isig", "icanon", "xcase"] ++ inputs) false with
        minimum := 1, time := 0 }
    | "cooked" | "-raw" =>
      some (turnAll mode ["brkint", "ignpar", "istrip", "icrnl", "ixon", "opost", "isig", "icanon"]
        true)
    | "cbreak" => mode.switch? "icanon" false
    | "-cbreak" => mode.switch? "icanon" true
    | setting => match setting.toList with
      | '-' :: name => mode.switch? (String.ofList name) false
      | _ => mode.switch? setting true
  match changed with
  | some mode => .ok mode
  | none => .error (.unknown setting)

/-- Applies settings in order. -/
def applyAll (mode : TerminalMode) : List String → Except Fault TerminalMode
  | [] => .ok mode
  | ["min"] => .error (.missing "min")
  | ["time"] => .error (.missing "time")
  | "min" :: value :: rest => do applyAll { mode with minimum := ← readWaits value } rest
  | "time" :: value :: rest => do applyAll { mode with time := ← readWaits value } rest
  | setting :: rest => do applyAll (← applyOne mode setting) rest

/-- The mode of the terminal, if a stream is one. -/
def terminalOf? (m : Machine) (row : Nat) : Option TerminalMode :=
  if row = 0 then m.terminal else none

end Stty

open Stty in
/-- Shows or changes the mode of the terminal. -/
def stty : Program := program fun call => do
  let m ← get
  let (options, settings) := (operands call).partition (· == "-a")
  if !options.isEmpty && !settings.isEmpty then
    report call "when specifying an output style, modes may not be set"
    return .exited 1
  let mode := terminalOf? m call.streams.input
  match applyAll (mode.getD (.ofNew true true true 1 0)) settings, mode with
  | .error fault, _ => refuseSettings call fault
  | .ok _, none =>
    let fault := if isClosed m call.streams.input then Errno.badDescriptor else .notTerminal
    report call ("'standard input': " ++ fault.libraryText)
    return .exited 1
  | .ok changed, some mode =>
    if settings.isEmpty then finish call 0 (octets (showAll mode))
    else
      set { m with terminal := some changed }
      return .exited 0

end LineShell.Toolbox
