import LineShell.Editor

/-!
# The editor between two keys

`Editor.pressAll` takes octets one after the other as long as the line goes on. It tells what the
line is and what has been shown at that moment, which `Editor.edit` passes through without telling.

## Implementation notes

`Editor.edit_of_pressAll` is the link to the editor itself: when some octets leave the line open,
editing goes on with the rest of the input from the state that they lead to. The editor moves the
cursor of the history and changes nothing else of it, whether the line goes on or is done.
-/

namespace LineShell

namespace History

variable {h walked : History} {line : String}

/-- The line before the cursor is one of the history. -/
theorem of_previous? (hprevious : h.previous? = some (line, walked)) :
    line ∈ h.lines ∧ walked.lines = h.lines := by
  simp only [previous?] at hprevious
  split at hprevious
  · simp at hprevious
  · simp only [Option.map_eq_some_iff, Prod.mk.injEq] at hprevious
    obtain ⟨found, hfound, rfl, rfl⟩ := hprevious
    exact ⟨List.mem_of_getElem? hfound, rfl⟩

/-- The line after the cursor is one of the history, or empty. -/
theorem of_next? (hnext : h.next? = some (line, walked)) :
    (line ∈ h.lines ∨ line = "") ∧ walked.lines = h.lines := by
  simp only [next?] at hnext
  split at hnext
  · simp only [Option.some.injEq, Prod.mk.injEq] at hnext
    obtain ⟨rfl, rfl⟩ := hnext
    refine ⟨?_, rfl⟩
    cases hfound : h.lines[h.cursor + 1]? with
    | none => exact .inr rfl
    | some found => exact .inl (List.mem_of_getElem? hfound)
  · simp at hnext

theorem resetCursor_of_previous? (hprevious : h.previous? = some (line, walked)) :
    walked.resetCursor = h.resetCursor := by
  simp only [previous?] at hprevious
  split at hprevious
  · simp at hprevious
  · simp only [Option.map_eq_some_iff, Prod.mk.injEq] at hprevious
    obtain ⟨found, hfound, rfl, rfl⟩ := hprevious
    rfl

theorem resetCursor_of_next? (hnext : h.next? = some (line, walked)) :
    walked.resetCursor = h.resetCursor := by
  simp only [next?] at hnext
  split at hnext
  · simp only [Option.some.injEq, Prod.mk.injEq] at hnext
    obtain ⟨rfl, rfl⟩ := hnext
    rfl
  · simp at hnext

end History

namespace Editor

variable {editor : Editor}

/-- Takes octets as long as the line goes on. -/
def pressAll (editor : Editor) (s : LineState) : Bytes → Press
  | [] => .goOn s ""
  | octet :: rest =>
    match editor.press s octet with
    | .done outcome shown => .done outcome shown
    | .goOn next shown =>
      match pressAll editor next rest with
      | .goOn last more => .goOn last (shown ++ more)
      | .done outcome more => .done outcome (shown ++ more)

/-- A run of octets that leaves the line open is a first octet that does, and then a run. -/
theorem pressAll_cons_goOn {s last : LineState} {octet : UInt8} {rest : Bytes} {shown : String}
    (h : editor.pressAll s (octet :: rest) = .goOn last shown) :
    ∃ next first more, editor.press s octet = .goOn next first ∧
      editor.pressAll next rest = .goOn last more ∧ shown = first ++ more := by
  simp only [pressAll] at h
  cases hpress : editor.press s octet with
  | done outcome first => simp [hpress] at h
  | goOn next first =>
      simp only [hpress] at h
      cases hrest : editor.pressAll next rest with
      | done outcome more => simp [hrest] at h
      | goOn last' more =>
          simp only [hrest, Press.goOn.injEq] at h
          obtain ⟨rfl, rfl⟩ := h
          exact ⟨next, first, more, rfl, hrest, rfl⟩

theorem pressAll_append_goOn {s last : LineState} {a b : Bytes} {shown : String}
    (h : editor.pressAll s (a ++ b) = .goOn last shown) :
    ∃ next first more, editor.pressAll s a = .goOn next first ∧
      editor.pressAll next b = .goOn last more ∧ shown = first ++ more := by
  induction a generalizing s shown with
  | nil => exact ⟨s, "", shown, rfl, h, by simp⟩
  | cons octet rest ih =>
      obtain ⟨next, first, more, hpress, hrest, rfl⟩ := pressAll_cons_goOn h
      obtain ⟨mid, second, third, ha, hb, rfl⟩ := ih hrest
      exact ⟨mid, first ++ second, third, by simp [pressAll, hpress, ha], hb,
        (String.append_assoc ..).symm⟩

/-- Octets that leave the line open lead the editor to the state that they lead to. -/
theorem edit_of_pressAll {s last : LineState} {octets : Bytes} {more : String}
    (h : editor.pressAll s octets = .goOn last more) (shown : String) (rest : List Read) :
    editor.edit s shown (octets.map .octet ++ rest) = editor.edit last (shown ++ more) rest := by
  induction octets generalizing s shown more with
  | nil =>
      simp only [pressAll, Press.goOn.injEq] at h
      obtain ⟨rfl, rfl⟩ := h
      simp
  | cons octet octets ih =>
      obtain ⟨next, first, second, hpress, hrest, rfl⟩ := pressAll_cons_goOn h
      simp only [List.map_cons, List.cons_append, edit, hpress]
      rw [ih hrest, String.append_assoc]

theorem resetCursor_recallLine {s next : LineState} {recalled : Option (String × History)}
    {shown : String}
    (hrecalled : ∀ line walked, recalled = some (line, walked) →
      walked.resetCursor = s.history.resetCursor)
    (hpress : editor.recallLine s recalled = .goOn next shown) :
    next.history.resetCursor = s.history.resetCursor := by
  cases recalled with
  | none =>
      obtain ⟨rfl, -⟩ := Press.goOn.inj hpress
      rfl
  | some found =>
      obtain ⟨line, walked⟩ := found
      obtain ⟨rfl, -⟩ := Press.goOn.inj hpress
      exact hrecalled line walked rfl

theorem resetCursor_finishEscape {s next : LineState} {second third : UInt8} {shown : String}
    (hpress : editor.finishEscape s second third = .goOn next shown) :
    next.history.resetCursor = s.history.resetCursor := by
  simp only [finishEscape] at hpress
  split at hpress
  · split at hpress
    · exact @resetCursor_recallLine editor { s with escape := .none } _ _ _
        (fun line walked hprevious => History.resetCursor_of_previous? hprevious) hpress
    · split at hpress
      · exact @resetCursor_recallLine editor { s with escape := .none } _ _ _
          (fun line walked hnext => History.resetCursor_of_next? hnext) hpress
      · obtain ⟨rfl, -⟩ := Press.goOn.inj hpress
        rfl
  · obtain ⟨rfl, -⟩ := Press.goOn.inj hpress
    rfl

theorem kept_insert {s next : LineState} {octet : UInt8} {shown : String}
    (hpress : insert s octet = .goOn next shown) :
    next.history = s.history ∧ next.escape = s.escape := by
  simp only [insert] at hpress
  split at hpress <;> (obtain ⟨rfl, -⟩ := Press.goOn.inj hpress; exact ⟨rfl, rfl⟩)

theorem kept_completeText {s next : LineState} {shown : String}
    (hpress : editor.completeText s = .goOn next shown) :
    next.history = s.history ∧ next.escape = s.escape := by
  simp only [completeText] at hpress
  split at hpress <;> (obtain ⟨rfl, -⟩ := Press.goOn.inj hpress; exact ⟨rfl, rfl⟩)

/-- An octet that begins no escape keeps the history and its cursor. -/
theorem kept_pressKey {s next : LineState} {octet : UInt8} {shown : String} (hoctet : octet ≠ 0x1B)
    (hpress : editor.pressKey s octet = .goOn next shown) :
    next.history = s.history ∧ next.escape = s.escape := by
  simp only [pressKey, if_neg hoctet] at hpress
  split at hpress
  · split at hpress
    · simp at hpress
    · obtain ⟨rfl, -⟩ := Press.goOn.inj hpress
      exact ⟨rfl, rfl⟩
  · split at hpress
    · simp at hpress
    · split at hpress
      · simp at hpress
      · split at hpress
        · exact kept_completeText hpress
        · split at hpress
          · obtain ⟨rfl, -⟩ := Press.goOn.inj hpress
            exact ⟨rfl, rfl⟩
          · exact kept_insert hpress

theorem resetCursor_pressKey {s next : LineState} {octet : UInt8} {shown : String}
    (hpress : editor.pressKey s octet = .goOn next shown) :
    next.history.resetCursor = s.history.resetCursor := by
  by_cases hescape : octet = 0x1B
  · subst hescape
    obtain ⟨rfl, -⟩ := Press.goOn.inj hpress
    rfl
  · rw [(kept_pressKey hescape hpress).1]

theorem resetCursor_press {s next : LineState} {octet : UInt8} {shown : String}
    (hpress : editor.press s octet = .goOn next shown) :
    next.history.resetCursor = s.history.resetCursor := by
  simp only [press] at hpress
  split at hpress
  · exact resetCursor_pressKey hpress
  · obtain ⟨rfl, -⟩ := Press.goOn.inj hpress
    rfl
  · exact resetCursor_finishEscape hpress

theorem resetCursor_edit (s : LineState) (shown : String) (input : List Read) :
    (editor.edit s shown input).history.resetCursor = s.history.resetCursor := by
  induction input generalizing s shown with
  | nil => rfl
  | cons read rest ih =>
      cases read with
      | interrupted => exact ih s shown
      | failed fault => rfl
      | octet value =>
          simp only [edit]
          cases hpress : editor.press s value with
          | goOn next more => exact (ih next _).trans (resetCursor_press hpress)
          | done outcome more => rfl

/-- Reading a line moves the cursor of the history, and leaves the rest of it as it is. -/
theorem resetCursor_readLine (history : History) (input : List Read) :
    (editor.readLine history input).history.resetCursor = history.resetCursor :=
  resetCursor_edit (.start history) editor.prompt input

theorem lines_readLine (history : History) (input : List Read) :
    (editor.readLine history input).history.lines = history.lines := by
  have hlines := congrArg History.lines (@resetCursor_readLine editor history input)
  exact hlines

end Editor

end LineShell
