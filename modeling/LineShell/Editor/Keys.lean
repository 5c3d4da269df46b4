import LineShell.Editor

/-!
# Keys

The editor takes octets. Whoever types thinks in keys: characters, the keys that finish, abandon or
complete a line, and the arrows. `Key.octets` says what a key sends, and `Draft` is an editor that
takes whole keys and so needs to remember nothing between two octets.
-/

namespace LineShell

/-- A key, by what it means. -/
inductive Key where
  | character (c : Char)
  /-- Finishes the line; by a carriage return or by a line feed. -/
  | enter (carriageReturn : Bool)
  | interrupt
  | endOfInput
  | tab
  /-- Erases a character; either of two keys does. -/
  | backspace (delete : Bool)
  | up
  | down
  /-- An escape that means nothing. -/
  | ignored (second third : UInt8)
  deriving DecidableEq, Repr

namespace Key

/-- The octets that a key sends. -/
def octets : Key → Bytes
  | .character c => String.utf8EncodeChar c
  | .enter carriageReturn => [if carriageReturn then 0x0D else 0x0A]
  | .interrupt => [0x03]
  | .endOfInput => [0x04]
  | .tab => [0x09]
  | .backspace delete => [if delete then 0x7F else 0x08]
  | .up => [0x1B, 0x5B, 0x41]
  | .down => [0x1B, 0x5B, 0x42]
  | .ignored second third => [0x1B, second, third]

/-- Characters that are keys of the editor rather than text. -/
def isControl (c : Char) : Bool :=
  [0x03, 0x04, 0x08, 0x09, 0x0A, 0x0D, 0x1B, 0x7F].contains c.toNat

/-- Keys that mean what they are called: a character is none of the editor's own keys, and an escape
without a meaning is not one of the arrows. -/
def IsProper : Key → Prop
  | .character c => isControl c = false
  | .ignored second third => ¬(second = 0x5B ∧ (third = 0x41 ∨ third = 0x42))
  | _ => True

end Key

/-- A line while it is edited by keys. -/
structure Draft where
  buffer : List Char
  bellRang : Bool
  history : History
  deriving DecidableEq, Repr

/-- What a key does to a draft. -/
inductive Stroke where
  | goOn (draft : Draft) (shown : String)
  | done (outcome : ReadOutcome) (shown : String)
  deriving DecidableEq, Repr

/-- A line read by keys, with what was shown, the history and the keys that are left. -/
structure DraftRead where
  outcome : ReadOutcome
  shown : String
  history : History
  rest : List Key
  deriving DecidableEq, Repr

namespace Draft

/-- An empty line, with nothing recalled. -/
def start (h : History) : Draft := ⟨[], false, h.resetCursor⟩

/-- Recalls the line at a place; behind the last one there is the empty line. -/
def recallAt (editor : Editor) (d : Draft) (place : Nat) : Stroke :=
  let line := (d.history.lines[place]?).getD ""
  .goOn ⟨line.toList, false, { d.history with cursor := place }⟩
    (eraseLine ++ editor.prompt ++ line)

/-- The effect of a key. -/
def press (editor : Editor) (d : Draft) : Key → Stroke
  | .character c =>
    .goOn { d with buffer := d.buffer ++ [c], bellRang := false } (String.singleton c)
  | .enter _ => .done (.line (String.ofList d.buffer)) "\n"
  | .interrupt => .done .interrupted "\n"
  | .endOfInput => if d.buffer = [] then .done .endOfInput "\n" else .goOn d ""
  | .tab =>
    let text := String.ofList d.buffer
    match editor.complete text d.bellRang with
    | .insert more => .goOn { d with buffer := d.buffer ++ more.toList } more
    | .bell => .goOn { d with bellRang := true } bell
    | .listing names =>
      .goOn { d with bellRang := true }
        ("\n" ++ joined "  " names ++ "\n" ++ editor.prompt ++ text ++ bell)
  | .backspace _ =>
    .goOn { d with buffer := d.buffer.dropLast, bellRang := false }
      (if d.buffer = [] then "" else eraseChar)
  | .up => if 0 < d.history.cursor then recallAt editor d (d.history.cursor - 1) else .goOn d ""
  | .down =>
    if d.history.cursor < d.history.lines.length then recallAt editor d (d.history.cursor + 1)
    else .goOn d ""
  | .ignored _ _ => .goOn d ""

/-- Takes keys until the line is done, or there are no more. -/
def edit (editor : Editor) (d : Draft) (shown : String) : List Key → DraftRead
  | [] =>
    ⟨if d.buffer = [] then .endOfInput else .line (String.ofList d.buffer), shown ++ "\n",
      d.history, []⟩
  | key :: rest =>
    match d.press editor key with
    | .goOn next more => edit editor next (shown ++ more) rest
    | .done outcome more => ⟨outcome, shown ++ more, d.history, rest⟩

/-- Reads one line of keys. -/
def readLine (editor : Editor) (history : History) (keys : List Key) : DraftRead :=
  (start history).edit editor editor.prompt keys

end Draft

end LineShell
