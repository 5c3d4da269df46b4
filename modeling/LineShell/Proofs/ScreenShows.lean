import LineShell.Editor.Screen
import LineShell.Proofs.VisibleText

/-!
# What the line of the terminal shows

Everything that the editor writes is made of a few parts: visible text, a line feed, the bell, and
the sequences that blank one character or the whole line. Here is what each of them makes of a line
that shows some text.
-/

namespace LineShell

namespace Screen

variable {s : Screen} {text more : List Char} {c : Char}

theorem step_idle (h : s.control = .none) (c : Char) : s.step c = s.showPlain c := by
  simp only [step, h]

/-- A visible character goes behind the text. -/
theorem shows_step (h : s.Shows text) (hc : takesCell c = true) :
    (s.step c).Shows (text ++ [c]) := by
  have hplain : s.step c = s.put c := by
    rw [step_idle h.idle]
    simp only [takesCell, decide_eq_true_eq, List.mem_cons, List.not_mem_nil, or_false,
      not_or] at hc
    simp only [showPlain, hc, if_false]
  have hlength : s.column ≤ s.cells.length := by
    have := congrArg List.length h.left
    rw [List.length_take, ← h.column] at this
    omega
  have hcells : (s.put c).cells = (text ++ [c]) ++ s.cells.drop (s.column + 1) := by
    simp [put, h.left, Nat.sub_eq_zero_of_le hlength]
  have hcolumn : (s.put c).column = (text ++ [c]).length := by
    simp [put, h.column]
  rw [hplain]
  refine ⟨?_, hcolumn, ?_, h.idle⟩
  · rw [hcells, hcolumn, List.take_left]
  · rw [hcells, hcolumn, List.drop_left]
    intro d hd
    rw [← List.drop_drop] at hd
    exact h.right d (List.mem_of_mem_drop hd)

theorem shows_showAll (h : s.Shows text) (hmore : IsVisible more) :
    (s.showAll more).Shows (text ++ more) := by
  induction more generalizing s text with
  | nil => simpa using h
  | cons c rest ih =>
      have hrest := ih (shows_step h (hmore c List.mem_cons_self))
        fun d hd => hmore d (List.mem_cons_of_mem _ hd)
      rw [List.append_assoc] at hrest
      exact hrest

/-- A line feed begins a new line. -/
theorem shows_lineFeed (h : s.Shows text) : (s.step '\n').Shows [] := by
  rw [step_idle h.idle]
  exact ⟨rfl, rfl, by simp [showPlain], h.idle⟩

/-- The bell leaves the line as it is. -/
theorem shows_bell (h : s.Shows text) : (s.showAll bell.toList).Shows text := by
  change (s.step '\x07').Shows text
  rw [step_idle h.idle]
  exact h

/-- Blanking the line leaves nothing on it. -/
theorem shows_eraseLine (h : s.Shows text) : (s.showAll eraseLine.toList).Shows [] := by
  have hshown : s.showAll eraseLine.toList =
      { s with cells := [], column := 0, control := .none } := by
    change (((((s.step '\r').step '\x1b').step '[').step '2').step 'K') = _
    rw [step_idle h.idle]
    simp [showPlain, step, h.idle]
  rw [hshown]
  exact ⟨rfl, rfl, by simp, rfl⟩

/-- Blanking a character takes the last one off the text. -/
theorem shows_eraseChar (h : s.Shows (text ++ [c])) :
    (s.showAll eraseChar.toList).Shows text := by
  have hcolumn : s.column = text.length + 1 := by
    simpa using h.column
  have hleft : s.cells.take text.length = text := by
    have := congrArg (List.take text.length) h.left
    rwa [List.take_take, hcolumn, Nat.min_eq_left (by omega), List.take_left] at this
  have hlength : text.length ≤ s.cells.length := by
    have := congrArg List.length hleft
    rw [List.length_take] at this
    omega
  have hback : s.step '\x08' = { s with column := text.length } := by
    simp [step, h.idle, showPlain, hcolumn]
  have hspace : ({ s with column := text.length } : Screen).step ' ' =
      { s with cells := text ++ ' ' :: s.cells.drop (text.length + 1)
               column := text.length + 1 } := by
    simp [step, h.idle, showPlain, put, hleft, Nat.sub_eq_zero_of_le hlength]
  have hshown : s.showAll eraseChar.toList =
      { s with cells := text ++ ' ' :: s.cells.drop (text.length + 1)
               column := text.length } := by
    change ((s.step '\x08').step ' ').step '\x08' = _
    rw [hback, hspace]
    simp [step, h.idle, showPlain]
  rw [hshown]
  refine ⟨List.take_left, rfl, ?_, h.idle⟩
  intro d hd
  simp only [List.drop_left, List.mem_cons] at hd
  rcases hd with rfl | hd
  · rfl
  · exact h.right d (by rwa [hcolumn])

end Screen

end LineShell
