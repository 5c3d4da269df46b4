/-!
# Signals

Signals have numbers, names and descriptions. The standard ones go up to 31, those for programs' own
use from 34 to 64; these are named by their distance from the nearer end.
-/

namespace LineShell.Toolbox.Script.Signal

/-- The largest number of a signal. -/
def last : Nat := 64

/-- Standard signals: number, name, description. -/
def table : List (Nat × String × String) :=
  [(1, "HUP", "Hangup"), (2, "INT", "Interrupt"), (3, "QUIT", "Quit"),
   (4, "ILL", "Illegal instruction"), (5, "TRAP", "Trace/breakpoint trap"), (6, "ABRT", "Aborted"),
   (7, "BUS", "Bus error"), (8, "FPE", "Floating point exception"), (9, "KILL", "Killed"),
   (10, "USR1", "User defined signal 1"), (11, "SEGV", "Segmentation fault"),
   (12, "USR2", "User defined signal 2"), (13, "PIPE", "Broken pipe"), (14, "ALRM", "Alarm clock"),
   (15, "TERM", "Terminated"), (16, "16", "Stack fault"), (17, "CHLD", "Child exited"),
   (18, "CONT", "Continued"), (19, "STOP", "Stopped (signal)"), (20, "TSTP", "Stopped"),
   (21, "TTIN", "Stopped (tty input)"), (22, "TTOU", "Stopped (tty output)"),
   (23, "URG", "Urgent I/O condition"), (24, "XCPU", "CPU time limit exceeded"),
   (25, "XFSZ", "File size limit exceeded"), (26, "VTALRM", "Virtual timer expired"),
   (27, "PROF", "Profiling timer expired"), (28, "WINCH", "Window changed"),
   (29, "IO", "I/O possible"), (30, "PWR", "Power failure"), (31, "SYS", "Bad system call")]

/-- The name of a signal. -/
def name (signal : Nat) : String :=
  match table.lookup signal with
  | some (name, _) => name
  | none =>
    if signal = 0 then "EXIT"
    else if signal < 34 then signal.repr
    else if signal = 34 then "RTMIN"
    else if signal < 50 then "RTMIN+" ++ (signal - 34).repr
    else if signal < 64 then "RTMAX-" ++ (64 - signal).repr
    else "RTMAX"

/-- What happened to a process that a signal has ended. -/
def description (signal : Nat) : String :=
  match table.lookup signal with
  | some (_, description) => description
  | none =>
    if signal < 34 then "Unknown signal " ++ signal.repr
    else "Real-time signal " ++ (signal - 34).repr

/-- The signal of a name, in small or capital letters. -/
def ofName? (text : String) : Option Nat :=
  let capital := text.toUpper
  (List.range (last + 1)).find? fun signal => name signal == capital

/-- Signals that do not end a process which has not asked for anything else. -/
def harmless : List Nat := [0, 17, 18, 19, 20, 21, 22, 23, 28]

/-- Signals that nobody reports when they end a process. -/
def silent : List Nat := [2, 13]

end LineShell.Toolbox.Script.Signal
