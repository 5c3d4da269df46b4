import LineShell.Completion
import LineShell.Failure
import LineShell.History

/-!
# Editing a line

Keys arrive as single octets. The editor keeps the text of the line, shows every change on the
terminal, and is done when a key finishes the line, abandons it or ends the input. Text is added
and taken away at its end only.

| Key | Effect |
|---|---|
| line feed, carriage return | finish the line |
| `0x03` | abandon the line |
| `0x04` | end the input if the line is empty |
| `0x09` | complete the line |
| `0x08`, `0x7F` | erase the last character |
| escape, `[`, `A` or `B` | recall the previous or next line |
| escape and any other two octets | nothing |
| other octets | a character, when all its octets have arrived |

## Implementation notes

`press` is the effect of one octet on the state. An escape and the octets of a character arrive in
several presses, so the state remembers how far they have come. `edit` takes presses from the
input until one of them is the last; it never looks at what comes after that one.
-/

namespace LineShell

/-- One attempt to read from the input. -/
inductive Read where
  | octet (value : UInt8)
  /-- Nothing was read, and the attempt is to be repeated. -/
  | interrupted
  | failed (fault : FileFault)
  deriving DecidableEq, Repr

/-- How the reading of a line ended. -/
inductive ReadOutcome where
  | line (text : String)
  | interrupted
  | endOfInput
  | failed (fault : FileFault)
  deriving DecidableEq, Repr

/-- How much of an escape has arrived. -/
inductive Escape where
  | none
  | begun
  | second (value : UInt8)
  deriving DecidableEq, Repr

/-- A line while it is edited. -/
structure LineState where
  buffer : String
  /-- Octets of a character that has not arrived completely. -/
  pending : Bytes
  /-- The bell rang for the text as it is. -/
  bellRang : Bool
  escape : Escape
  history : History
  deriving DecidableEq, Repr

/-- What a key does: the line goes on, or it is done. Either way some text is shown. -/
inductive Press where
  | goOn (state : LineState) (shown : String)
  | done (outcome : ReadOutcome) (shown : String)
  deriving DecidableEq, Repr

/-- A line that was read, with what was shown meanwhile and the input that is left. -/
structure LineRead where
  outcome : ReadOutcome
  shown : String
  history : History
  rest : List Read
  deriving DecidableEq, Repr

/-- What an editor needs to know besides the keys. -/
structure Editor where
  prompt : String
  complete : String → Bool → Completion

/-- Text without its last character. -/
def dropLastChar (text : String) : String := String.ofList text.toList.dropLast

/-- Moves to the start of the line on the terminal and blanks it. -/
def eraseLine : String := "\r\x1b[2K"

/-- Blanks the character before the cursor on the terminal. -/
def eraseChar : String := "\x08 \x08"

/-- Rings the bell of the terminal. -/
def bell : String := "\x07"

namespace LineState

/-- An empty line, with nothing recalled. -/
def start (h : History) : LineState := ⟨"", [], false, .none, h.resetCursor⟩

end LineState

namespace Editor

/-- Puts a recalled line in the place of the text. -/
def recallLine (editor : Editor) (s : LineState) : Option (String × History) → Press
  | none => .goOn s ""
  | some (line, history) =>
    .goOn { s with buffer := line, pending := [], bellRang := false, history := history }
      (eraseLine ++ editor.prompt ++ line)

/-- Ends an escape with its third octet. -/
def finishEscape (editor : Editor) (s : LineState) (second third : UInt8) : Press :=
  let s := { s with escape := .none }
  if second = 0x5B then
    if third = 0x41 then editor.recallLine s s.history.previous?
    else if third = 0x42 then editor.recallLine s s.history.next?
    else .goOn s ""
  else .goOn s ""

/-- Completes the text. Text that is put in leaves the memory of the bell alone. -/
def completeText (editor : Editor) (s : LineState) : Press :=
  match editor.complete s.buffer s.bellRang with
  | .insert text => .goOn { s with buffer := s.buffer ++ text } text
  | .bell => .goOn { s with bellRang := true } bell
  | .listing names =>
    .goOn { s with bellRang := true }
      ("\n" ++ joined "  " names ++ "\n" ++ editor.prompt ++ s.buffer ++ bell)

/-- Takes the last character away. -/
def erase (s : LineState) : Press :=
  .goOn { s with buffer := dropLastChar s.buffer, pending := [], bellRang := false }
    (if s.buffer = "" then "" else eraseChar)

/-- Takes an octet of a character. Octets that cannot belong together are forgotten. -/
def insert (s : LineState) (octet : UInt8) : Press :=
  match Utf8.read (s.pending ++ [octet]) with
  | .character c =>
    .goOn { s with buffer := s.buffer.push c, pending := [], bellRang := false }
      (String.singleton c)
  | .unfinished => .goOn { s with pending := s.pending ++ [octet] } ""
  | .malformed => .goOn { s with pending := [] } ""

/-- Takes an octet that is no part of an escape. -/
def pressKey (editor : Editor) (s : LineState) (octet : UInt8) : Press :=
  if octet = 0x04 then
    if s.buffer = "" then .done .endOfInput "\n" else .goOn s ""
  else if octet = 0x03 then .done .interrupted "\n"
  else if octet = 0x0A ∨ octet = 0x0D then .done (.line s.buffer) "\n"
  else if octet = 0x09 then editor.completeText s
  else if octet = 0x1B then .goOn { s with escape := .begun } ""
  else if octet = 0x7F ∨ octet = 0x08 then erase s
  else insert s octet

/-- Takes one octet. -/
def press (editor : Editor) (s : LineState) (octet : UInt8) : Press :=
  match s.escape with
  | .none => editor.pressKey s octet
  | .begun => .goOn { s with escape := .second octet } ""
  | .second second => editor.finishEscape s second octet

/-- Takes octets until the line is done. At the end of the input a line that has some text is
done too; whoever reads on finds the end again. -/
def edit (editor : Editor) (s : LineState) (shown : String) : List Read → LineRead
  | [] => ⟨if s.buffer = "" then .endOfInput else .line s.buffer, shown ++ "\n", s.history, []⟩
  | .interrupted :: rest => edit editor s shown rest
  | .failed fault :: rest => ⟨.failed fault, shown, s.history, rest⟩
  | .octet value :: rest =>
    match editor.press s value with
    | .goOn next more => edit editor next (shown ++ more) rest
    | .done outcome more => ⟨outcome, shown ++ more, s.history, rest⟩

/-- Shows the prompt and reads one line. -/
def readLine (editor : Editor) (history : History) (input : List Read) : LineRead :=
  editor.edit (.start history) editor.prompt input

/-- Reading a line takes at least one read off the input, unless nothing is left. -/
theorem length_rest_edit_lt (editor : Editor) (input : List Read) (hne : input ≠ []) :
    ∀ (s : LineState) (shown : String), (editor.edit s shown input).rest.length < input.length := by
  induction input with
  | nil => exact absurd rfl hne
  | cons read rest ih =>
    intro s shown
    have tail : ∀ s shown, (editor.edit s shown rest).rest.length < rest.length + 1 := by
      intro s shown
      cases rest with
      | nil => simp [edit]
      | cons next rest => exact Nat.lt_succ_of_lt (ih (by simp) s shown)
    cases read with
    | interrupted => simpa [edit] using tail s shown
    | failed fault => simp [edit]
    | octet value =>
      simp only [edit, List.length_cons]
      split
      · exact tail _ _
      · simp

end Editor

end LineShell
