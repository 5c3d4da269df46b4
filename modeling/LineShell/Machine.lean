import LineShell.Stream
import LineShell.Terminal
import LineShell.Volume.Files

/-!
# The machine that commands run on

A machine is what commands share: a volume, a table of channels, perhaps a terminal, and the
signals sent so far. A channel is an open file or a stream of octets, and a descriptor of a process
is a row of the table. Two descriptors for one row share its offset, two rows for one file do not.

What belongs to a shell alone (its current directory, variables and history) is no part of the
machine, so no program can change it.

## Implementation notes

Commands of a pipeline run one after the other, so a reader finds all that its writer left. A writer
that may go on for ever is cut off when it has written more to a pipe than there is patience for. If
its reader needs more than that, both are run again with more patience.

Who reads from a stream takes whole blocks, and what it does not use of them is lost. Who reads
from a file can go back to where it stopped using what it read.
-/

namespace LineShell

/-- What an open file was opened for. -/
inductive Access where
  | reading
  | writing
  /-- Everything is written behind what the file holds at that moment. -/
  | appending
  deriving DecidableEq, Repr

/-- What a descriptor stands for. -/
inductive Channel where
  | file (place : Location) (serial : Nat) (access : Access) (offset : Nat)
  | stream (stream : Stream)
  /-- A file that stands nowhere in the volume, opened for reading. -/
  | tape (contents : Bytes) (offset : Nat)
  | device (device : Device)
  /-- A directory, of which nothing can be read. -/
  | directory
  | closed
  deriving DecidableEq, Repr

/-- Volume, channels, terminal, and the signals sent, each with the process it was sent to. -/
structure Machine where
  volume : Volume
  channels : List Channel
  terminal : Option TerminalMode
  signals : List (Nat × Nat)
  /-- How many octets a writer may write to a pipe before it is cut off. -/
  patience : Nat
  deriving DecidableEq, Repr

/-- Contents with some octets written over them from an offset on; a gap before the offset is
filled with zeros. -/
def writeOver (contents : Bytes) (offset : Nat) (written : Bytes) : Bytes :=
  contents.take offset ++ List.replicate (offset - contents.length) 0 ++ written ++
    contents.drop (offset + written.length)

/-- Whether a channel is the file with some serial number, opened to be changed. -/
def Channel.changes (serial : Nat) : Channel → Bool
  | .file _ number .writing _ | .file _ number .appending _ => number == serial
  | _ => false

namespace Machine

/-- The channel in a row of the table. -/
def channel? (m : Machine) (row : Nat) : Option Channel := m.channels[row]?

/-- Replaces the channel in a row. -/
def setChannel (m : Machine) (row : Nat) (channel : Channel) : Machine :=
  { m with channels := m.channels.set row channel }

/-- Adds a channel in a new row. -/
def addChannel (m : Machine) (channel : Channel) : Machine × Nat :=
  ({ m with channels := m.channels ++ [channel] }, m.channels.length)

/-- Closes the channel in a row; the row is not used again. -/
def close (m : Machine) (row : Nat) : Machine := m.setChannel row .closed

/-- Closes every channel but the first ones. -/
def closeFrom (m : Machine) (row : Nat) : Machine :=
  { m with channels := m.channels.take row }

/-- Whether some channel may change the file with a serial number. -/
def isBeingChanged (m : Machine) (serial : Nat) : Bool :=
  m.channels.any (·.changes serial)

/-- The contents of an open file, unless it was removed. -/
def contentsOf (m : Machine) (place : Location) (serial : Nat) : Option Entry :=
  (m.volume.find? place).filter (·.serial == serial)

/-- Writes octets to a channel, of which no octets are no change. What is written to a removed file
is lost. -/
def write (m : Machine) (row : Nat) (written : Bytes) : Except FileFault Machine :=
  match m.channel? row with
  | none | some .closed | some .directory | some (.tape _ _) | some (.file _ _ .reading _) =>
    .error (.refused .badDescriptor)
  | some channel =>
    if written.isEmpty then .ok m
    else match channel with
      | .stream s =>
        if s.isBroken then .error (.refused .brokenPipe)
        else .ok (m.setChannel row (.stream (s.write written)))
      | .device .full => .error (.refused .noSpace)
      | .device .abandoned => .error (.refused .brokenPipe)
      | .file place serial access offset =>
        match m.contentsOf place serial with
        | some ⟨_, .file contents permissions⟩ =>
          let start := if access = .appending then contents.length else offset
          .ok { m.setChannel row (.file place serial access (start + written.length)) with
            volume := m.volume.update place (.file (writeOver contents start written) permissions) }
        | _ => .ok m
      | _ => .ok m

/-- Writes text to a channel. -/
def print (m : Machine) (row : Nat) (text : String) : Except FileFault Machine :=
  m.write row (octets text)

/-- Writes octets to a channel and goes on when they are refused. -/
def writeOrSkip (m : Machine) (row : Nat) (written : Bytes) : Machine :=
  match m.write row written with
  | .ok m => m
  | .error _ => m

/-- Writes text to a channel and goes on when it is refused. -/
def printOrSkip (m : Machine) (row : Nat) (text : String) : Machine :=
  match m.print row text with
  | .ok m => m
  | .error _ => m

/-- The stream in a row. -/
def stream? (m : Machine) (row : Nat) : Option Stream :=
  match m.channel? row with
  | some (.stream s) => some s
  | _ => none

/-- Cuts off the writer of a stream. -/
def cut (m : Machine) (row : Nat) : Machine :=
  match m.channel? row with
  | some (.stream s) => m.setChannel row (.stream s.cut)
  | _ => m

/-- Whether a reader wants more of a stream than there is although its writer would go on. -/
def isStarved (m : Machine) (row : Nat) : Bool := (m.stream? row).any (·.isStarved)

/-- Octets with what repeats after them written out, up to a length at least. -/
def unroll (octets cycle : Bytes) (length : Nat) : Bytes :=
  if cycle.isEmpty then octets
  else octets ++ (List.replicate ((length - octets.length) / cycle.length + 1) cycle).flatten

/-- Writes octets over and over. Only a pipe can take them, and as many as there is patience for. -/
def writeForEver (m : Machine) (row : Nat) (cycle : Bytes) : Machine :=
  match m.channel? row with
  | some (.stream s) =>
    if s.isPipe then m.setChannel row (.stream (s.write (unroll [] cycle m.patience)).cut) else m
  | _ => m

/-- What can be read from a channel, and what repeats for ever after it. -/
def unread (m : Machine) (row : Nat) : Bytes × Bytes :=
  match m.channel? row with
  | some (.stream s) => (s.unread, [])
  | some (.tape contents offset) => (contents.drop offset, [])
  | some (.file place serial .reading offset) =>
    match m.contentsOf place serial with
    | some ⟨_, .file contents _⟩ => (contents.drop offset, [])
    | _ => ([], [])
  | some (.device device) => ([], device.cycle)
  | _ => ([], [])

/-- Takes some octets off what can be read from a channel. -/
def consume (m : Machine) (row count : Nat) : Machine :=
  match m.channel? row with
  | some (.stream s) => m.setChannel row (.stream (s.take count))
  | some (.tape contents offset) => m.setChannel row (.tape contents (offset + count))
  | some (.file place serial .reading offset) =>
    m.setChannel row (.file place serial .reading (offset + count))
  | _ => m

/-- Takes octets off a channel that is read in blocks of some size, when so many are used. The rest
of the last block is lost, unless the reader can go back. -/
def consumeBlocks (m : Machine) (row block count : Nat) : Machine :=
  match m.channel? row with
  | some (.stream s) => m.setChannel row (.stream (s.takeBlocks block count))
  | _ => m.consume row count

/-- Why nothing can be read from a channel. -/
def readingFault? (m : Machine) (row : Nat) : Option FileFault :=
  match m.channel? row with
  | none | some .closed => some (.refused .badDescriptor)
  | some .directory => some (.refused .isDirectory)
  | some (.file _ _ .reading _) => none
  | some (.file _ _ _ _) => some (.refused .badDescriptor)
  | some _ => none

/-- Reads all there is. -/
def takeAll (m : Machine) (row : Nat) : Machine × Bytes × Bytes :=
  let (octets, cycle) := m.unread row
  (match m.channel? row with
    | some (.stream s) => m.setChannel row (.stream s.takeAll)
    | _ => m.consume row octets.length, octets, cycle)

/-- Whether the writer of a pipe that was cut off has to be run again with more patience, and then
how much it had written. It has not if it waits for a writer itself. -/
def wanted? (m : Machine) (input pipe : Nat) : Option Nat :=
  if m.isStarved pipe && !m.isStarved input then (m.stream? pipe).map (·.written) else none

/-- Patience for a writer that had too little when it had written so much. -/
def morePatient (m : Machine) (written : Nat) : Machine :=
  { m with patience := max written (4 * m.patience) }

/-- Tries something with more patience as long as more is wanted, so many times at most. -/
def patiently {α : Type} (attempt : Machine → α) (wanted? : α → Option Nat) : Nat → Machine → α
  | 0, m => attempt m
  | n + 1, m =>
    let result := attempt m
    match wanted? result with
    | some written => patiently attempt wanted? n (m.morePatient written)
    | none => result

/-- How often a writer is run again at most. -/
def mostAttempts : Nat := 6

/-- A process that starves has not written all it would write. -/
def cutIfStarved (m : Machine) (input output : Nat) : Machine :=
  if m.isStarved input then m.cut output else m

/-- A process that had to wait with its output has not come to the end of its input, if it had not
before. -/
def reopenIfBlocked (m before : Machine) (input output : Nat) : Machine :=
  if (m.stream? output).any (·.isBlocked) then
    match m.channel? input with
    | some (.stream s) =>
      m.setChannel input
        (.stream { s with isEnded := (before.stream? input).any (·.isEnded) })
    | _ => m
  else m

/-- Opens a file for writing, in a new row. -/
def openFile (m : Machine) (cwd : WorkingDirectory) (path : String) (append : Bool) :
    Except FileFault (Machine × Nat) :=
  match m.volume.openForWriting cwd path append with
  | .error fault => .error fault
  | .ok (volume, .file place serial) =>
    .ok ({ m with volume := volume }.addChannel
      (.file place serial (if append then .appending else .writing) 0))
  | .ok (volume, .device device) =>
    .ok ({ m with volume := volume }.addChannel (.device device))

/-- Opens a file for reading, in a new row. -/
def openSource (m : Machine) (cwd : WorkingDirectory) (path : String) :
    Except FileFault (Machine × Nat) :=
  match m.volume.lookUp cwd path .follow with
  | .error fault => .error fault
  | .ok (some place, ⟨serial, .file _ permissions⟩) =>
    if permissions.mayRead then .ok (m.addChannel (.file place serial .reading 0))
    else .error (.refused .accessDenied)
  | .ok (_, ⟨_, .device device⟩) => .ok (m.addChannel (.device device))
  | .ok (_, ⟨_, .program _⟩) => .ok (m.addChannel (.tape Volume.programMark 0))
  | .ok (_, ⟨_, .directory permissions⟩) =>
    if permissions.mayRead then .ok (m.addChannel .directory) else .error (.refused .accessDenied)
  | .ok _ => .ok (m.addChannel .directory)

end Machine

end LineShell
