import LineShell.Proofs.CharacterOctets
import LineShell.Proofs.KeyRuns
import LineShell.Proofs.ScreenShows

/-!
# The screen follows the line

Between two octets the line of the terminal shows the prompt and the text of the line up to the
cursor, and nothing behind it. Every way in which the editor redraws keeps that: it shows a
character, blanks one, blanks the whole line and writes it anew, or goes on on a new line.

## Implementation notes

`Screen.Faithful` is what every octet preserves. It asks for the text of the line to be visible,
since a redraw shows it again, and for the lines of the history, since any of them may be recalled.
-/

namespace LineShell

/-- Between two octets: the line of the terminal shows the prompt and the text, and whatever may be
shown again is visible. -/
structure Screen.Faithful (editor : Editor) (screen : Screen) (s : LineState) : Prop where
  shows : screen.Shows (editor.prompt ++ s.buffer).toList
  buffer : IsVisible s.buffer.toList
  history : ∀ line ∈ s.history.lines, IsVisible line.toList

namespace Screen.Faithful

variable {editor : Editor} {screen : Screen} {s next : LineState} {octet : UInt8} {shown : String}

/-- Only the text and the lines of the history matter. -/
theorem congr {other : LineState} (h : Faithful editor screen s)
    (hbuffer : other.buffer = s.buffer) (hlines : other.history.lines = s.history.lines) :
    Faithful editor screen other := by
  refine ⟨?_, ?_, ?_⟩
  · rw [hbuffer]
    exact h.shows
  · rw [hbuffer]
    exact h.buffer
  · rw [hlines]
    exact h.history

/-- A line that is recalled takes the place of the text. -/
theorem recallLine {recalled : Option (String × History)} (heditor : editor.IsVisible)
    (h : Faithful editor screen s)
    (hrecalled : ∀ line history, recalled = some (line, history) →
      IsVisible line.toList ∧ history.lines = s.history.lines)
    (hpress : editor.recallLine s recalled = .goOn next shown) :
    Faithful editor (screen.showAll shown.toList) next ∧ next.escape = s.escape := by
  cases recalled with
  | none =>
      simp only [Editor.recallLine, Press.goOn.injEq] at hpress
      obtain ⟨rfl, rfl⟩ := hpress
      exact ⟨h, rfl⟩
  | some found =>
      obtain ⟨line, history⟩ := found
      obtain ⟨hline, hlines⟩ := hrecalled line history rfl
      simp only [Editor.recallLine, Press.goOn.injEq] at hpress
      obtain ⟨rfl, rfl⟩ := hpress
      refine ⟨⟨?_, hline, ?_⟩, rfl⟩
      · rw [String.append_assoc, String.toList_append, showAll_append]
        refine shows_showAll (shows_eraseLine h.shows) ?_
        rw [String.toList_append, isVisible_append]
        exact ⟨heditor.prompt, hline⟩
      · intro line' hline'
        exact h.history line' (hlines ▸ hline')

theorem finishEscape {second third : UInt8} (heditor : editor.IsVisible)
    (h : Faithful editor screen s)
    (hpress : editor.finishEscape s second third = .goOn next shown) :
    Faithful editor (screen.showAll shown.toList) next ∧ next.escape = .none := by
  have hclosed : Faithful editor screen { s with escape := .none } := h.congr rfl rfl
  simp only [Editor.finishEscape] at hpress
  split at hpress
  · split at hpress
    · refine hclosed.recallLine heditor ?_ hpress
      intro line history hprevious
      obtain ⟨hline, hlines⟩ := History.of_previous? hprevious
      exact ⟨h.history line hline, hlines⟩
    · split at hpress
      · refine hclosed.recallLine heditor ?_ hpress
        intro line history hnext
        obtain ⟨hline | rfl, hlines⟩ := History.of_next? hnext
        · exact ⟨h.history line hline, hlines⟩
        · exact ⟨by simp [IsVisible], hlines⟩
      · simp only [Press.goOn.injEq] at hpress
        obtain ⟨rfl, rfl⟩ := hpress
        exact ⟨hclosed, rfl⟩
  · simp only [Press.goOn.injEq] at hpress
    obtain ⟨rfl, rfl⟩ := hpress
    exact ⟨hclosed, rfl⟩

/-- Visible text that goes behind the line is shown as it is. -/
theorem append {text : String} (h : Faithful editor screen s) (htext : IsVisible text.toList)
    (hbuffer : next.buffer = s.buffer ++ text) (hhistory : next.history = s.history) :
    Faithful editor (screen.showAll text.toList) next := by
  refine ⟨?_, ?_, ?_⟩
  · rw [hbuffer, ← String.append_assoc, String.toList_append]
    exact shows_showAll h.shows htext
  · rw [hbuffer, String.toList_append, isVisible_append]
    exact ⟨h.buffer, htext⟩
  · rw [hhistory]
    exact h.history

/-- Completion adds to the line, rings the bell, or lists names and writes the line anew. -/
theorem completeText (heditor : editor.IsVisible) (h : Faithful editor screen s)
    (hpress : editor.completeText s = .goOn next shown) :
    Faithful editor (screen.showAll shown.toList) next ∧ next.escape = s.escape := by
  simp only [Editor.completeText] at hpress
  split at hpress
  case h_1 text hcomplete =>
    simp only [Press.goOn.injEq] at hpress
    obtain ⟨rfl, rfl⟩ := hpress
    exact ⟨h.append (heditor.insert _ _ _ hcomplete) rfl rfl, rfl⟩
  case h_2 =>
    simp only [Press.goOn.injEq] at hpress
    obtain ⟨rfl, rfl⟩ := hpress
    exact ⟨⟨shows_bell h.shows, h.buffer, h.history⟩, rfl⟩
  case h_3 names hcomplete =>
    simp only [Press.goOn.injEq] at hpress
    obtain ⟨rfl, rfl⟩ := hpress
    refine ⟨⟨?_, h.buffer, h.history⟩, rfl⟩
    have hlisted : IsVisible (joined "  " names).toList :=
      isVisible_joined (by decide) (heditor.listing _ _ _ hcomplete)
    have hbegun : (screen.showAll "\n".toList).Shows [] := shows_lineFeed h.shows
    have hnames := shows_showAll hbegun hlisted
    have hended : ((screen.showAll "\n".toList).showAll (joined "  " names).toList).showAll
        "\n".toList |>.Shows [] := shows_lineFeed hnames
    have hline : IsVisible (editor.prompt ++ s.buffer).toList := by
      rw [String.toList_append, isVisible_append]
      exact ⟨heditor.prompt, h.buffer⟩
    have hshown := shows_bell (shows_showAll hended hline)
    simpa only [String.toList_append, showAll_append, List.nil_append] using hshown

/-- Erasing takes the last character off the line and off the screen; the prompt stays. -/
theorem erase (h : Faithful editor screen s) (hpress : Editor.erase s = .goOn next shown) :
    Faithful editor (screen.showAll shown.toList) next ∧ next.escape = s.escape := by
  simp only [Editor.erase, Press.goOn.injEq] at hpress
  obtain ⟨rfl, rfl⟩ := hpress
  refine ⟨⟨?_, ?_, h.history⟩, rfl⟩
  · rcases List.eq_nil_or_concat s.buffer.toList with hnil | ⟨kept, last, hkept⟩
    · have hempty : s.buffer = "" := String.toList_eq_nil_iff.mp hnil
      simpa [dropLastChar, hempty] using h.shows
    · have hne : s.buffer ≠ "" := by
        intro hempty
        simp [hempty] at hkept
      have hshows := h.shows
      rw [String.toList_append, hkept, List.concat_eq_append, ← List.append_assoc] at hshows
      simpa [dropLastChar, hkept, hne] using shows_eraseChar hshows
  · intro c hc
    simp only [dropLastChar, String.toList_ofList] at hc
    exact h.buffer c ((List.dropLast_sublist _).subset hc)

/-- A character that has arrived completely is visible, unless its one octet is a key. -/
theorem takesCell_of_read {pending : Bytes} {c : Char}
    (hread : Utf8.read (pending ++ [octet]) = .character c)
    (hoctet : octet ∉ [0x07, 0x08, 0x0A, 0x0D, 0x1B]) : takesCell c = true := by
  have hlast : octet ∈ String.utf8EncodeChar c := by
    rw [← Utf8.eq_encodeChar_of_read hread]
    simp
  cases hc : takesCell c with
  | true => rfl
  | false =>
      have hspecial : c = '\n' ∨ c = '\r' ∨ c = '\x08' ∨ c = '\x07' ∨ c = '\x1b' := by
        simpa only [takesCell, decide_eq_false_iff_not, Decidable.not_not, List.mem_cons,
          List.not_mem_nil, or_false] using hc
      refine absurd ?_ hoctet
      rcases hspecial with rfl | rfl | rfl | rfl | rfl <;>
        (rw [List.mem_singleton.mp hlast]; decide)

theorem insert (h : Faithful editor screen s)
    (hoctet : octet ∉ [0x07, 0x08, 0x0A, 0x0D, 0x1B])
    (hpress : Editor.insert s octet = .goOn next shown) :
    Faithful editor (screen.showAll shown.toList) next ∧ next.escape = s.escape := by
  simp only [Editor.insert] at hpress
  split at hpress
  case h_1 c hread =>
    simp only [Press.goOn.injEq] at hpress
    obtain ⟨rfl, rfl⟩ := hpress
    refine ⟨h.append ?_ ?_ rfl, rfl⟩
    · intro d hd
      rw [String.toList_singleton, List.mem_singleton] at hd
      exact hd ▸ takesCell_of_read hread hoctet
    · exact String.push_eq_append c
  case h_2 =>
    simp only [Press.goOn.injEq] at hpress
    obtain ⟨rfl, rfl⟩ := hpress
    exact ⟨h.congr rfl rfl, rfl⟩
  case h_3 =>
    simp only [Press.goOn.injEq] at hpress
    obtain ⟨rfl, rfl⟩ := hpress
    exact ⟨h.congr rfl rfl, rfl⟩

/-- An octet that neither rings the bell nor begins an escape keeps the screen faithful. -/
theorem pressKey (heditor : editor.IsVisible) (h : Faithful editor screen s)
    (hbell : octet ≠ 0x07) (hescape : octet ≠ 0x1B)
    (hpress : editor.pressKey s octet = .goOn next shown) :
    Faithful editor (screen.showAll shown.toList) next ∧ next.escape = s.escape := by
  simp only [Editor.pressKey] at hpress
  split at hpress
  · split at hpress
    · simp at hpress
    · simp only [Press.goOn.injEq] at hpress
      obtain ⟨rfl, rfl⟩ := hpress
      exact ⟨h, rfl⟩
  · split at hpress
    · simp at hpress
    · split at hpress
      · simp at hpress
      · rename_i hfinish
        split at hpress
        · exact h.completeText heditor hpress
        · split at hpress
          · exact h.erase hpress
          · rename_i herase
            refine h.insert ?_ hpress
            simp only [List.mem_cons, List.not_mem_nil, or_false, not_or]
            rw [not_or] at hfinish herase
            exact ⟨hbell, herase.2, hfinish.1, hfinish.2, hescape⟩

end Screen.Faithful

end LineShell
