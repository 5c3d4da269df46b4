/-!
# Terminal modes

The mode of a terminal says what it does with keys before a program sees them. While a line is
edited the editor wants every key at once and as it is, so the three settings that hold keys back,
show them or turn them into signals are off, and a read returns as soon as one octet is there.
-/

namespace LineShell

/-- What a terminal does with keys. -/
structure TerminalMode where
  /-- Keys are held back until the line is complete. -/
  canonical : Bool
  /-- Keys are shown. -/
  echo : Bool
  /-- Some keys send signals. -/
  signals : Bool
  /-- Octets that a read waits for. -/
  minimum : Nat
  /-- Tenths of a second that a read waits. -/
  time : Nat
  /-- Further settings, by name. -/
  others : List (String × Bool)
  deriving DecidableEq, Repr

namespace TerminalMode

/-- The mode in which lines are edited; the further settings stay. -/
def raw (mode : TerminalMode) : TerminalMode :=
  { mode with canonical := false, echo := false, signals := false, minimum := 1, time := 0 }

/-- The name of a setting, with a minus sign if it is off. -/
def flag (name : String) (on : Bool) : String := if on then name else "-" ++ name

/-- The three settings and the two numbers in one line. -/
def describe (mode : TerminalMode) : String :=
  flag "icanon" mode.canonical ++ " " ++ flag "echo" mode.echo ++ " " ++ flag "isig" mode.signals ++
    " min=" ++ mode.minimum.repr ++ " time=" ++ mode.time.repr

/-- The further settings of a new terminal. -/
def furtherSettings : List (String × Bool) :=
  [("parenb", false), ("parodd", false), ("cmspar", false), ("cs8", true), ("hupcl", false),
   ("cstopb", false), ("cread", true), ("clocal", false), ("crtscts", false), ("ignbrk", false),
   ("brkint", false), ("ignpar", false), ("parmrk", false), ("inpck", false), ("istrip", false),
   ("inlcr", false), ("igncr", false), ("icrnl", true), ("ixon", true), ("ixoff", false),
   ("iuclc", false), ("ixany", false), ("imaxbel", false), ("iutf8", false), ("opost", true),
   ("olcuc", false), ("ocrnl", false), ("onlcr", true), ("onocr", false), ("onlret", false),
   ("ofill", false), ("ofdel", false), ("nl0", true), ("cr0", true), ("tab0", true),
   ("bs0", true), ("vt0", true), ("ff0", true), ("iexten", true), ("echoe", true),
   ("echok", true), ("echonl", false), ("noflsh", false), ("xcase", false), ("tostop", false),
   ("echoprt", false), ("echoctl", true), ("echoke", true), ("flusho", false),
   ("extproc", false)]

/-- A new terminal with some settings of its own. -/
def ofNew (canonical echo signals : Bool) (minimum time : Nat) : TerminalMode :=
  ⟨canonical, echo, signals, minimum, time, furtherSettings⟩

/-- Whether a setting is on. -/
def isOn (mode : TerminalMode) (name : String) : Bool :=
  match name with
  | "icanon" => mode.canonical
  | "echo" => mode.echo
  | "isig" => mode.signals
  | _ => (mode.others.lookup name).getD false

/-- Turns a setting on or off; `none` if the terminal has no such setting. -/
def switch? (mode : TerminalMode) (name : String) (on : Bool) : Option TerminalMode :=
  match name with
  | "icanon" => some { mode with canonical := on }
  | "echo" => some { mode with echo := on }
  | "isig" => some { mode with signals := on }
  | _ =>
    if mode.others.any (·.1 == name) then
      some { mode with others := mode.others.map fun s => if s.1 == name then (name, on) else s }
    else none

end TerminalMode

end LineShell
