import LineShell.Volume.Basic

/-!
# Streams of octets

A stream is what one process writes and another one reads. It holds the octets that are written and
not yet read.

A writer that may go on for ever is cut off at some time. A reader that then comes to the end of the
stream has not seen the end of what there is: it starves. A reader that stops before has seen all it
needs.

## Implementation notes

Octets are written at the back one piece at a time, the last one first, and put in order when they
are read. So a piece takes no longer to write when much is waiting.
-/

namespace LineShell

/-- Octets between a writer and a reader. -/
structure Stream where
  /-- The octets that are read next. -/
  front : Bytes
  /-- Pieces behind them, the last one first. -/
  back : List Bytes
  /-- How many octets have been written, also those that were not taken. -/
  written : Nat
  /-- A pipe ends a writer when nobody reads. -/
  isPipe : Bool
  /-- The writer has been cut off. -/
  isCut : Bool
  /-- A reader has come to the end. -/
  isEnded : Bool
  /-- Nobody reads, and who writes is told so. -/
  isBroken : Bool
  deriving DecidableEq, Repr

namespace Stream

/-- A pipe holds as many octets before its writer has to wait. -/
def capacity : Nat := 16384

/-- Octets that wait for a reader. -/
def ofOctets (waiting : Bytes) : Stream :=
  { front := waiting, back := [], written := 0, isPipe := false, isCut := false, isEnded := false,
    isBroken := false }

/-- Nothing is written yet. -/
def empty : Stream := ofOctets []

/-- A pipe into which nothing is written yet. -/
def pipe : Stream := { empty with isPipe := true }

/-- The octets not yet read. -/
def unread (s : Stream) : Bytes :=
  if s.back.isEmpty then s.front else s.front ++ s.back.reverse.flatten

/-- Writes a piece. Nothing more is taken when the writer has been cut off. -/
def write (s : Stream) (piece : Bytes) : Stream :=
  { s with
    back := if s.isCut then s.back else piece :: s.back
    written := s.written + piece.length }

/-- Cuts off the writer. -/
def cut (s : Stream) : Stream := { s with isCut := true }

/-- Takes some octets. -/
def take (s : Stream) (count : Nat) : Stream :=
  let rest := s.unread.drop count
  { s with front := rest, back := [], isEnded := s.isEnded || rest.isEmpty }

/-- Takes the blocks that some octets are in; what is not used of the last one is lost. -/
def takeBlocks (s : Stream) (block count : Nat) : Stream :=
  let s := s.take count
  { s with front := s.front.drop ((count + block - 1) / block * block - count) }

/-- Takes everything. -/
def takeAll (s : Stream) : Stream := { s with front := [], back := [], isEnded := true }

/-- Whether a reader has come to the end of what a writer wrote that was cut off. -/
def isStarved (s : Stream) : Bool := s.isCut && s.isEnded

/-- Whether the writer had to wait, since the pipe is full and its reader has stopped reading. -/
def isBlocked (s : Stream) : Bool := s.isPipe && capacity < s.written && !s.isEnded

end Stream

end LineShell
