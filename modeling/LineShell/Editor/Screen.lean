import LineShell.Editor

/-!
# What a terminal makes of the editor's output

A screen of unbounded width with one cell for each character. Only what the editor uses has an
effect of its own: the line feed, the carriage return, the backspace, the bell, and the sequence
that blanks the line. Every other character is put into the cell under the cursor.
-/

namespace LineShell

/-- How much of a control sequence has arrived. -/
inductive Sequence where
  | none
  | escape
  | bracket
  | two
  deriving DecidableEq, Repr

/-- The line of the terminal where the cursor is, and the lines above it, the nearest first. Cells
that are not listed are blank. -/
structure Screen where
  above : List (List Char)
  cells : List Char
  column : Nat
  control : Sequence
  deriving DecidableEq, Repr

namespace Screen

/-- An empty screen. -/
def blank : Screen := ⟨[], [], 0, .none⟩

/-- Puts a character into the cell under the cursor, which goes on by one. -/
def put (s : Screen) (c : Char) : Screen :=
  { s with
    cells := s.cells.take s.column ++ List.replicate (s.column - s.cells.length) ' ' ++
      c :: s.cells.drop (s.column + 1)
    column := s.column + 1 }

/-- Shows a character outside a control sequence. -/
def showPlain (s : Screen) (c : Char) : Screen :=
  if c = '\n' then { s with above := s.cells :: s.above, cells := [], column := 0 }
  else if c = '\r' then { s with column := 0 }
  else if c = '\x08' then { s with column := s.column - 1 }
  else if c = '\x07' then s
  else if c = '\x1b' then { s with control := .escape }
  else s.put c

/-- Shows a character. -/
def step (s : Screen) (c : Char) : Screen :=
  match s.control with
  | .none => s.showPlain c
  | .escape => { s with control := if c = '[' then .bracket else .none }
  | .bracket => { s with control := if c = '2' then .two else .none }
  | .two =>
    if c = 'K' then { s with cells := [], control := .none } else { s with control := .none }

/-- Shows a text. -/
def showAll (s : Screen) (text : List Char) : Screen := text.foldl Screen.step s

@[simp] theorem showAll_nil (s : Screen) : s.showAll [] = s := rfl

theorem showAll_append (s : Screen) (a b : List Char) :
    s.showAll (a ++ b) = (s.showAll a).showAll b := by
  simp [showAll]

/-- The line of the cursor shows a text up to the cursor, and nothing from there on. -/
structure Shows (s : Screen) (text : List Char) : Prop where
  left : s.cells.take s.column = text
  column : s.column = text.length
  right : ∀ c ∈ s.cells.drop s.column, c = ' '
  idle : s.control = .none

end Screen

end LineShell
