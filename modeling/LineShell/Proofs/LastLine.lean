import LineShell.Proofs.AlikeSessions

/-!
# The line at the end of the input

At the end of the input a line that has some text is finished, as if a newline had come. A newline
within an escape is swallowed, and the line goes on to the end of the input again. So a newline at
the end of the input changes what is read in one case only: where the line is empty when the input
ends, it finishes an empty line, and otherwise there is none.

## Implementation notes

`Editor.openEnd?` walks over the input as `Editor.edit` does, and `Session.EndsOnEmptyLine` takes
turns until a line comes to the end of the input. Octets of an unfinished character are no text of
the line, neither for the newline nor for the end of the input.
-/

namespace LineShell

/-- The octet that finishes a line. -/
def newline : Read := .octet 0x0A

namespace Editor

variable {editor : Editor} {s state : LineState} {input : List Read}

/-- The line as it is when the input ends, unless it is closed before. -/
def openEnd? (editor : Editor) (s : LineState) : List Read → Option LineState
  | [] => some s
  | .interrupted :: rest => openEnd? editor s rest
  | .failed _ :: _ => none
  | .octet value :: rest =>
    match editor.press s value with
    | .goOn next _ => openEnd? editor next rest
    | .done _ _ => none

/-- What comes after a line that is closed is left over. -/
theorem edit_append_of_closed (h : editor.openEnd? s input = none) (shown : String)
    (more : List Read) :
    editor.edit s shown (input ++ more) =
      { editor.edit s shown input with rest := (editor.edit s shown input).rest ++ more } := by
  induction input generalizing s shown with
  | nil => simp [openEnd?] at h
  | cons read rest ih =>
      cases read with
      | interrupted => exact ih h shown
      | failed fault => rfl
      | octet value =>
          simp only [List.cons_append, edit]
          simp only [openEnd?] at h
          cases hpress : editor.press s value with
          | goOn next typed =>
              rw [hpress] at h
              exact ih h (shown ++ typed)
          | done outcome typed => rfl

/-- A line that is open when the input ends goes on with what comes after it. -/
theorem edit_append_of_open (h : editor.openEnd? s input = some state) (shown : String) :
    ∃ typed, ∀ more,
      editor.edit s shown (input ++ more) = editor.edit state (shown ++ typed) more := by
  induction input generalizing s shown with
  | nil =>
      obtain rfl := Option.some.inj h
      exact ⟨"", fun more => by rw [List.nil_append, String.append_empty]⟩
  | cons read rest ih =>
      cases read with
      | interrupted => exact ih h shown
      | failed fault => simp [openEnd?] at h
      | octet value =>
          simp only [openEnd?] at h
          cases hpress : editor.press s value with
          | done outcome first => simp [hpress] at h
          | goOn next first =>
              rw [hpress] at h
              obtain ⟨typed, hedit⟩ := ih h (shown ++ first)
              refine ⟨first ++ typed, fun more => ?_⟩
              simp only [List.cons_append, edit, hpress, hedit, String.append_assoc]

/-- A newline finishes an empty line; on any other line it does what the end of the input does. -/
theorem edit_newline (s : LineState) (shown : String) :
    editor.edit s shown [newline] =
      if s.buffer = "" ∧ s.escape = .none then ⟨.line "", shown ++ "\n", s.history, []⟩
      else editor.edit s shown [] := by
  cases hescape : s.escape with
  | none =>
      by_cases hempty : s.buffer = ""
      · simp [newline, edit, press, pressKey, hescape, hempty]
      · simp [newline, edit, press, pressKey, hescape, hempty]
  | begun => simp [newline, edit, press, hescape]
  | second value =>
      have hpress : editor.press s 0x0A = .goOn { s with escape := .none } "" := by
        simp [press, hescape, finishEscape]
      simp [newline, edit, hpress]

end Editor

namespace Session

variable {settings : Settings} {host : Host} {s t : Session}

/-- The line that is read next as it is when the input ends, unless it is closed before. -/
def openEnd? (settings : Settings) (s : Session) : Option LineState :=
  (s.editor settings).openEnd? (.start s.shell.history) s.input

/-- The first line that comes to the end of the input is empty there, and not within an escape. -/
inductive EndsOnEmptyLine (settings : Settings) (host : Host) : Session → Prop
  | now {s : Session} {state : LineState} (isOpen : s.openEnd? settings = some state)
      (buffer_eq : state.buffer = "") (escape_eq : state.escape = .none) :
      EndsOnEmptyLine settings host s
  | later {s next : Session} (isClosed : s.openEnd? settings = none)
      (turn_eq : s.turn settings host = (next, none))
      (rest : EndsOnEmptyLine settings host next) : EndsOnEmptyLine settings host s

/-! ## What is read -/

theorem reading_append_of_closed (h : s.openEnd? settings = none)
    (halike : Alike settings host s t) (hinput : t.input = s.input ++ [newline]) :
    t.reading settings =
      { s.reading settings with rest := (s.reading settings).rest ++ [newline] } := by
  rw [reading, halike.editor_eq, halike.shell, hinput]
  exact Editor.edit_append_of_closed h _ _

/-- A newline makes no difference to what is read when the line has some text or is within an
escape. -/
theorem reading_append_of_open {state : LineState} (h : s.openEnd? settings = some state)
    (hsome : ¬(state.buffer = "" ∧ state.escape = .none)) (halike : Alike settings host s t)
    (hinput : t.input = s.input ++ [newline]) :
    t.reading settings = s.reading settings := by
  obtain ⟨typed, hedit⟩ := Editor.edit_append_of_open h (s.editor settings).prompt
  have hend := hedit []
  rw [List.append_nil] at hend
  rw [reading, halike.editor_eq, halike.shell, hinput]
  exact (hedit _).trans ((Editor.edit_newline ..).trans ((if_neg hsome).trans hend.symm))

theorem reading_append_of_empty {state : LineState} (h : s.openEnd? settings = some state)
    (hbuffer : state.buffer = "") (hescape : state.escape = .none)
    (halike : Alike settings host s t) (hinput : t.input = s.input ++ [newline]) :
    (s.reading settings).outcome = .endOfInput ∧ (s.reading settings).rest = [] ∧
      t.reading settings = { s.reading settings with outcome := .line "" } := by
  obtain ⟨typed, hedit⟩ := Editor.edit_append_of_open h (s.editor settings).prompt
  have hend : s.reading settings =
      ⟨.endOfInput, (s.editor settings).prompt ++ typed ++ "\n", state.history, []⟩ := by
    have hnothing := hedit []
    rw [List.append_nil] at hnothing
    exact hnothing.trans (by simp [Editor.edit, hbuffer])
  rw [hend, reading, halike.editor_eq, halike.shell, hinput]
  exact ⟨rfl, rfl, (hedit _).trans ((Editor.edit_newline ..).trans (if_pos ⟨hbuffer, hescape⟩))⟩

end Session

end LineShell
