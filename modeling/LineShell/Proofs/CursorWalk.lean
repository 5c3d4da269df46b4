import LineShell.Proofs.TypedScreen
import LineShell.Proofs.WholeKeys

/-!
# Walking over the history

While a line is edited, the arrows walk over the lines of the history and the empty line behind
them, one line at a time and not beyond either end. What else is typed in between does not move the
cursor, and nothing that is typed changes the lines.

## Implementation notes

`Typed.walk` is the walk by itself, without a line that is edited; `Editor.OnWalk.pressAllTyped`
says that the cursor is where it leads. Octets that are no escape keep the whole history one by one,
so the octets of a character and those that belong to none need no case of their own.
-/

namespace LineShell

namespace Typed

/-- A key that means what it is called, or an octet that is none of the keys. -/
def IsProper : Typed → Prop
  | .key pressed => pressed.IsProper
  | .stray octet => octet ∉ keyOctets

def IsArrow (typed : Typed) : Prop := typed = .key .up ∨ typed = .key .down

/-- Where a key leads from a place among so many lines, behind which there is one more place. -/
def step (size place : Nat) : Typed → Nat
  | .key .up => place - 1
  | .key .down => min (place + 1) size
  | .key _ | .stray _ => place

/-- Where keys lead, one after the other, from behind the last line. -/
def walk (size : Nat) (typed : List Typed) : Nat :=
  typed.foldl (Typed.step size) size

theorem step_le {size place : Nat} (h : place ≤ size) (typed : Typed) :
    typed.step size place ≤ size := by
  unfold step
  split
  · exact Nat.le_trans (Nat.sub_le place 1) h
  · exact Nat.min_le_right _ _
  · exact h
  · exact h

theorem step_of_not_isArrow {typed : Typed} (h : ¬typed.IsArrow) (size place : Nat) :
    typed.step size place = place := by
  unfold step
  split
  · exact absurd (.inl rfl) h
  · exact absurd (.inr rfl) h
  · rfl
  · rfl

/-- What is typed and is no arrow is an escape without a meaning, or no escape is among its
octets. -/
theorem ignored_or_plain {typed : Typed} (hproper : typed.IsProper) (h : ¬typed.IsArrow) :
    (∃ second third, typed = .key (.ignored second third)) ∨
      ∀ octet ∈ typed.octets, octet ≠ 0x1B := by
  have hkey : ∀ {octet : UInt8}, octet ∉ keyOctets → octet ≠ 0x1B := by
    rintro _ hoctet rfl
    exact hoctet (by decide)
  match typed with
  | .stray octet =>
      right
      intro other hother
      obtain rfl := List.mem_singleton.mp hother
      exact hkey hproper
  | .key (.character c) =>
      right
      intro octet hoctet
      exact hkey (not_mem_keyOctets hproper hoctet)
  | .key (.enter carriageReturn) =>
      right
      cases carriageReturn <;> simp [octets, Key.octets]
  | .key .interrupt | .key .endOfInput | .key .tab =>
      right
      simp [octets, Key.octets]
  | .key (.backspace delete) =>
      right
      cases delete <;> simp [octets, Key.octets]
  | .key .up => exact absurd (.inl rfl) h
  | .key .down => exact absurd (.inr rfl) h
  | .key (.ignored second third) => exact .inl ⟨second, third, rfl⟩

end Typed

namespace History

variable {h : History}

/-- The line at a place, which is empty behind the last line, and the history with its cursor there.
Nothing is recalled at the place where the cursor is already. -/
def moveTo? (h : History) (place : Nat) : Option (String × History) :=
  if place = h.cursor then none
  else some ((h.lines[place]?).getD "", { h with cursor := place })

theorem previous?_eq (hcursor : h.cursor ≤ h.lines.length) :
    h.previous? = h.moveTo? (h.cursor - 1) := by
  unfold previous? moveTo?
  cases hplace : h.cursor with
  | zero => rfl
  | succ place =>
      have hline : place < h.lines.length := by omega
      simp [List.getElem?_eq_getElem hline]

theorem next?_eq (hcursor : h.cursor ≤ h.lines.length) :
    h.next? = h.moveTo? (min (h.cursor + 1) h.lines.length) := by
  unfold next? moveTo?
  rcases Nat.lt_or_eq_of_le hcursor with hless | hlast
  · rw [if_pos hless, Nat.min_eq_left hless, if_neg (Nat.succ_ne_self _)]
  · rw [if_neg (by omega), if_pos (by omega)]

/-- Every place up to the one behind the last line has its entry. -/
theorem getElem?_append_empty {lines : List String} {place : Nat} (h : place ≤ lines.length) :
    (lines ++ [""])[place]? = some ((lines[place]?).getD "") := by
  rcases Nat.lt_or_eq_of_le h with hless | rfl
  · rw [List.getElem?_append_left hless, List.getElem?_eq_getElem hless]
    rfl
  · simp

end History

namespace Editor

variable {editor : Editor} {s next last : LineState} {octet : UInt8} {octets : Bytes}
  {shown : String} {outcome : ReadOutcome} {typed : Typed}

/-- An arrow recalls the line at the place to which it leads. -/
theorem pressAll_arrow (hidle : s.escape = .none)
    (hcursor : s.history.cursor ≤ s.history.lines.length) (h : typed.IsArrow) :
    editor.pressAll s typed.octets = editor.recallLine s
      (s.history.moveTo? (typed.step s.history.lines.length s.history.cursor)) := by
  rcases h with rfl | rfl
  · change editor.pressAll s [0x1B, 0x5B, 0x41] = _
    rw [pressAll_escape hidle, finishEscape, leaveEscape_of_idle hidle]
    exact congrArg (editor.recallLine s) (History.previous?_eq hcursor)
  · change editor.pressAll s [0x1B, 0x5B, 0x42] = _
    rw [pressAll_escape hidle, finishEscape, leaveEscape_of_idle hidle]
    exact congrArg (editor.recallLine s) (History.next?_eq hcursor)

theorem kept_press (hidle : s.escape = .none) (hoctet : octet ≠ 0x1B)
    (hpress : editor.press s octet = .goOn next shown) :
    next.history = s.history ∧ next.escape = .none := by
  simp only [press, hidle] at hpress
  obtain ⟨hhistory, hescape⟩ := kept_pressKey hoctet hpress
  exact ⟨hhistory, hescape.trans hidle⟩

theorem kept_pressAll (hidle : s.escape = .none) (hoctets : ∀ octet ∈ octets, octet ≠ 0x1B)
    (hpress : editor.pressAll s octets = .goOn last shown) :
    last.history = s.history ∧ last.escape = .none := by
  induction octets generalizing s shown with
  | nil =>
      obtain ⟨rfl, -⟩ := Press.goOn.inj hpress
      exact ⟨rfl, hidle⟩
  | cons octet rest ih =>
      obtain ⟨next, first, more, hfirst, hrest, -⟩ := pressAll_cons_goOn hpress
      obtain ⟨hhistory, hnext⟩ := kept_press hidle (hoctets octet List.mem_cons_self) hfirst
      obtain ⟨hlast, hend⟩ :=
        ih hnext (fun other hother => hoctets other (List.mem_cons_of_mem _ hother)) hrest
      exact ⟨hlast.trans hhistory, hend⟩

/-- Octets that end the line and begin no escape keep the history, too. -/
theorem history_edit_of_done (hidle : s.escape = .none)
    (hoctets : ∀ octet ∈ octets, octet ≠ 0x1B) {more : String}
    (hpress : editor.pressAll s octets = .done outcome more) (shown : String) (rest : List Read) :
    (editor.edit s shown (octets.map .octet ++ rest)).history = s.history := by
  induction octets generalizing s shown outcome more with
  | nil => simp [pressAll] at hpress
  | cons octet octets ih =>
      simp only [List.map_cons, List.cons_append, edit]
      cases hfirst : editor.press s octet with
      | done outcome first => rfl
      | goOn next first =>
          obtain ⟨hhistory, hnext⟩ := kept_press hidle (hoctets octet List.mem_cons_self) hfirst
          cases hrest : editor.pressAll next octets with
          | goOn last second => simp [pressAll, hfirst, hrest] at hpress
          | done ended second =>
              have hedit := ih hnext
                (fun other hother => hoctets other (List.mem_cons_of_mem _ hother)) hrest
                (shown ++ first)
              exact hedit.trans hhistory

/-- A key moves the cursor as the walk does and keeps the rest of the history. -/
theorem history_pressAll (hidle : s.escape = .none)
    (hcursor : s.history.cursor ≤ s.history.lines.length) (hproper : typed.IsProper)
    (hpress : editor.pressAll s typed.octets = .goOn next shown) :
    next.history =
        { s.history with cursor := typed.step s.history.lines.length s.history.cursor } ∧
      next.escape = .none := by
  by_cases harrow : typed.IsArrow
  · rw [pressAll_arrow hidle hcursor harrow] at hpress
    unfold History.moveTo? at hpress
    split at hpress
    case isTrue hplace =>
      obtain ⟨rfl, -⟩ := Press.goOn.inj hpress
      rw [hplace]
      exact ⟨rfl, hidle⟩
    case isFalse =>
      obtain ⟨rfl, -⟩ := Press.goOn.inj hpress
      exact ⟨rfl, hidle⟩
  · rw [Typed.step_of_not_isArrow harrow]
    rcases Typed.ignored_or_plain hproper harrow with ⟨second, third, rfl⟩ | hplain
    · have hnothing := @pressAll_ignored editor s hidle second third hproper
      obtain ⟨rfl, -⟩ := Press.goOn.inj (hnothing.symm.trans hpress)
      exact ⟨rfl, hidle⟩
    · exact kept_pressAll hidle hplain hpress

/-- What holds between two keys: no escape has begun, and the history is the one from which the line
was begun, with its cursor at a place on the walk. -/
structure OnWalk (history : History) (place : Nat) (s : LineState) : Prop where
  history_eq : s.history = { history with cursor := place }
  place_le : place ≤ history.lines.length
  idle : s.escape = .none

theorem onWalk_start (history : History) :
    OnWalk history (Typed.walk history.lines.length []) (.start history) :=
  ⟨rfl, Nat.le_refl _, rfl⟩

variable {history : History} {place : Nat}

theorem OnWalk.cursor_eq (h : OnWalk history place s) : s.history.cursor = place := by
  rw [h.history_eq]

theorem OnWalk.lines_eq (h : OnWalk history place s) : s.history.lines = history.lines := by
  rw [h.history_eq]

theorem OnWalk.cursor_le (h : OnWalk history place s) :
    s.history.cursor ≤ s.history.lines.length := by
  rw [h.cursor_eq, h.lines_eq]
  exact h.place_le

theorem OnWalk.pressTyped (h : OnWalk history place s) (hproper : typed.IsProper)
    (hpress : editor.pressAll s typed.octets = .goOn next shown) :
    OnWalk history (typed.step history.lines.length place) next := by
  obtain ⟨hhistory, hidle⟩ := history_pressAll h.idle h.cursor_le hproper hpress
  rw [h.history_eq] at hhistory
  exact ⟨hhistory, Typed.step_le h.place_le typed, hidle⟩

theorem OnWalk.pressAllTyped {keys : List Typed} (h : OnWalk history place s)
    (hproper : ∀ t ∈ keys, t.IsProper)
    (hpress : editor.pressAll s (keys.flatMap Typed.octets) = .goOn last shown) :
    OnWalk history (keys.foldl (Typed.step history.lines.length) place) last := by
  induction keys generalizing s place shown with
  | nil =>
      obtain ⟨rfl, -⟩ := Press.goOn.inj hpress
      exact h
  | cons t rest ih =>
      rw [List.flatMap_cons] at hpress
      obtain ⟨next, first, more, hfirst, hrest, -⟩ := pressAll_append_goOn hpress
      rw [List.foldl_cons]
      exact ih (h.pressTyped (hproper t List.mem_cons_self) hfirst)
        (fun other hother => hproper other (List.mem_cons_of_mem _ hother)) hrest

/-- An arrow that cannot move the cursor changes nothing and shows nothing. -/
theorem OnWalk.pressAll_of_stays (h : OnWalk history place s) (harrow : typed.IsArrow)
    (hstays : typed.step history.lines.length place = place) :
    editor.pressAll s typed.octets = .goOn s "" := by
  have hnowhere : s.history.moveTo? place = none := if_pos h.cursor_eq.symm
  rw [pressAll_arrow h.idle h.cursor_le harrow, h.lines_eq, h.cursor_eq, hstays, hnowhere]
  rfl

/-- An arrow that moves the cursor puts the line at its new place in the place of the text, whatever
that was, and shows the prompt and the line anew. -/
theorem OnWalk.pressAll_of_moves (h : OnWalk history place s) (harrow : typed.IsArrow)
    (hmoves : typed.step history.lines.length place ≠ place) :
    ∃ line, (history.lines ++ [""])[typed.step history.lines.length place]? = some line ∧
      editor.pressAll s typed.octets =
        .goOn ⟨line, [], false, .none,
            { history with cursor := typed.step history.lines.length place }⟩
          (eraseLine ++ editor.prompt ++ line) := by
  refine ⟨_, History.getElem?_append_empty (Typed.step_le h.place_le typed), ?_⟩
  rw [pressAll_arrow h.idle h.cursor_le harrow, h.lines_eq, h.cursor_eq, History.moveTo?,
    h.cursor_eq, if_neg hmoves, h.history_eq]
  simp only [recallLine, h.idle]

/-- What is typed while a line is read never changes the lines of the history or their count. As
long as the line goes on, the cursor is where the arrows have led so far, from behind the last line
and within the ends. An arrow that moves the cursor recalls the line there and shows it anew, one
that cannot move it does nothing, and no other key moves it, whether the line goes on or ends. -/
theorem cursor_walks {keys : List Typed} (hproper : ∀ t ∈ keys, t.IsProper)
    (hopen : editor.pressAll (.start history) (keys.flatMap Typed.octets) = .goOn s shown) :
    (∀ rest, editor.readLine history ((keys.flatMap Typed.octets).map .octet ++ rest) =
      editor.edit s (editor.prompt ++ shown) rest) ∧
    s.history = { history with cursor := Typed.walk history.lines.length keys } ∧
    (∀ (arrow : Typed) (place : Nat), arrow.IsArrow →
      arrow.step history.lines.length s.history.cursor = place →
      (place = s.history.cursor → editor.pressAll s arrow.octets = .goOn s "") ∧
      (place ≠ s.history.cursor → ∃ line, (history.lines ++ [""])[place]? = some line ∧
        editor.pressAll s arrow.octets =
          .goOn ⟨line, [], false, .none, { history with cursor := place }⟩
            (eraseLine ++ editor.prompt ++ line))) ∧
    (∀ key : Typed, key.IsProper → ¬key.IsArrow →
      (∀ next more, editor.pressAll s key.octets = .goOn next more → next.history = s.history) ∧
      ∀ outcome more, editor.pressAll s key.octets = .done outcome more → ∀ rest,
        (editor.readLine history
          (((keys ++ [key]).flatMap Typed.octets).map .octet ++ rest)).history = s.history) ∧
    ∀ input, (editor.readLine history input).history.lines = history.lines ∧
      (editor.readLine history input).history.persisted = history.persisted := by
  have hwalk : OnWalk history (Typed.walk history.lines.length keys) s :=
    (onWalk_start history).pressAllTyped hproper hopen
  have hread : ∀ rest, editor.readLine history ((keys.flatMap Typed.octets).map .octet ++ rest) =
      editor.edit s (editor.prompt ++ shown) rest := edit_of_pressAll hopen editor.prompt
  refine ⟨hread, hwalk.history_eq, ?_, ?_, ?_⟩
  · rintro arrow _ harrow rfl
    rw [hwalk.cursor_eq]
    exact ⟨hwalk.pressAll_of_stays harrow, hwalk.pressAll_of_moves harrow⟩
  · intro key hkey harrow
    constructor
    · intro next more hpress
      have hnext := (hwalk.pressTyped hkey hpress).history_eq
      rw [Typed.step_of_not_isArrow harrow] at hnext
      exact hnext.trans hwalk.history_eq.symm
    · intro outcome more hpress rest
      rcases Typed.ignored_or_plain hkey harrow with ⟨second, third, rfl⟩ | hplain
      · have hnothing := @pressAll_ignored editor s hwalk.idle second third hkey
        exact absurd (hnothing.symm.trans hpress) (by simp)
      · have hsplit : ((keys ++ [key]).flatMap Typed.octets).map Read.octet ++ rest =
            (keys.flatMap Typed.octets).map .octet ++ (key.octets.map .octet ++ rest) := by
          simp
        rw [hsplit, hread]
        exact history_edit_of_done hwalk.idle hplain hpress _ rest
  · intro input
    have hpersisted := congrArg History.persisted (@resetCursor_readLine editor history input)
    exact ⟨lines_readLine history input, hpersisted⟩

/-- The third arrow finds no line before the first one. Half a character and a completion later, one
arrow leads to the last line and another one to the empty line behind it. -/
theorem cursor_walks_to_empty_line :
    (∀ t ∈ [Typed.key (.character 'l'), .key .up, .key .up, .key .up, .stray 0xC3, .key .tab,
      .key .down], t.IsProper) ∧
    pressAll ⟨"$ ", Completer.complete ⟨["echo", "exit"], none⟩ .empty ⟨[]⟩⟩
        (.start ⟨["pwd", "cd"], 0, 1⟩)
        ([Typed.key (.character 'l'), .key .up, .key .up, .key .up, .stray 0xC3, .key .tab,
          .key .down].flatMap Typed.octets) =
      .goOn ⟨"cd", [], false, .none, ⟨["pwd", "cd"], 1, 1⟩⟩
        "l\r\x1b[2K$ cd\r\x1b[2K$ pwd\x07\r\x1b[2K$ cd" ∧
    pressAll ⟨"$ ", Completer.complete ⟨["echo", "exit"], none⟩ .empty ⟨[]⟩⟩
        ⟨"cd", [], false, .none, ⟨["pwd", "cd"], 1, 1⟩⟩ (Typed.key .down).octets =
      .goOn ⟨"", [], false, .none, ⟨["pwd", "cd"], 2, 1⟩⟩ "\r\x1b[2K$ " := by
  have hproper : ∀ t ∈ [Typed.key (.character 'l'), .key .up, .key .up, .key .up, .stray 0xC3,
      .key .tab, .key .down], t.IsProper := by
    simp [Typed.IsProper, Key.IsProper, Key.isControl, keyOctets]
  have hopen : pressAll ⟨"$ ", Completer.complete ⟨["echo", "exit"], none⟩ .empty ⟨[]⟩⟩
      (.start ⟨["pwd", "cd"], 0, 1⟩)
      ([Typed.key (.character 'l'), .key .up, .key .up, .key .up, .stray 0xC3, .key .tab,
        .key .down].flatMap Typed.octets) =
      .goOn ⟨"cd", [], false, .none, ⟨["pwd", "cd"], 1, 1⟩⟩
        "l\r\x1b[2K$ cd\r\x1b[2K$ pwd\x07\r\x1b[2K$ cd" := by
    decide +kernel
  obtain ⟨-, -, harrows, -⟩ := cursor_walks hproper hopen
  obtain ⟨line, hline, hpress⟩ := (harrows (.key .down) 2 (.inr rfl) rfl).2 (by decide)
  obtain rfl : "" = line := Option.some.inj hline
  exact ⟨hproper, hopen, hpress⟩

end Editor

end LineShell
