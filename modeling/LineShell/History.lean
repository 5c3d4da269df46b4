import LineShell.Text.Blank

/-!
# The history of lines

A history is a list of lines to which lines are only ever added at the end. Its cursor walks over
the lines and stands behind the last one while nothing is recalled. A count remembers how many
lines are already in the history file.

Blank lines are not recorded.
-/

namespace LineShell

/-- Lines in the order in which they were accepted. -/
structure History where
  lines : List String
  /-- Place of the recalled line; behind the last line when none is. -/
  cursor : Nat
  /-- Number of lines that the history file holds already. -/
  persisted : Nat
  deriving DecidableEq, Repr

namespace History

/-- No lines. -/
def empty : History := ⟨[], 0, 0⟩

/-- Number of lines. -/
def size (h : History) : Nat := h.lines.length

/-- Puts the cursor behind the last line. -/
def resetCursor (h : History) : History := { h with cursor := h.lines.length }

/-- Adds lines at the end, save the blank ones; nothing is recalled afterwards. -/
def addAll (h : History) (lines : List String) : History :=
  resetCursor { h with lines := h.lines ++ lines.filter fun line => !isBlank line }

/-- Adds one line, unless it is blank. -/
def add (h : History) (line : String) : History := h.addAll [line]

/-- The most recent lines with their numbers, counted from one; zero asks for all of them. -/
def recent (h : History) (count : Nat) : List (Nat × String) :=
  let skipped := if count = 0 then 0 else h.lines.length - count
  (h.lines.drop skipped).mapIdx fun i line => (skipped + i + 1, line)

/-- Goes to the line before the cursor. -/
def previous? (h : History) : Option (String × History) :=
  match h.cursor with
  | 0 => none
  | n + 1 => (h.lines[n]?).map fun line => (line, { h with cursor := n })

/-- Goes to the line after the cursor; behind the last line stands the empty one. -/
def next? (h : History) : Option (String × History) :=
  if h.cursor < h.lines.length then
    some ((h.lines[h.cursor + 1]?).getD "", { h with cursor := h.cursor + 1 })
  else none

/-- What holds of a history that came about by its operations. -/
structure WellFormed (h : History) : Prop where
  cursor_le : h.cursor ≤ h.lines.length
  persisted_le : h.persisted ≤ h.lines.length
  not_blank : ∀ line ∈ h.lines, isBlank line = false

@[simp] theorem lines_addAll (h : History) (lines : List String) :
    (h.addAll lines).lines = h.lines ++ lines.filter fun line => !isBlank line := rfl

@[simp] theorem persisted_addAll (h : History) (lines : List String) :
    (h.addAll lines).persisted = h.persisted := rfl

end History

end LineShell
