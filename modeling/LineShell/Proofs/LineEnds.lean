import LineShell.Proofs.KeyRuns
import LineShell.Session

/-!
# How the reading of a line ends

Octets are taken off the input as long as the line goes on, and reads that were interrupted are
repeated. Then an octet finishes or abandons the line or ends the input, or the reader fails, or
nothing more comes. A line that is finished or abandoned has taken an octet off the input.

## Implementation notes

`Editor.Closes` is about the read that ends the line, and about nothing else: all that the reads
before it have left behind is the text of the line. `Editor.exists_closes` finds this text with
`Editor.pressAll`.
-/

namespace LineShell

namespace Editor

/-- How the reading of a line ends that has some text when these reads are still to come: with which
outcome, and which reads are left then. -/
inductive Closes (text : String) : List Read → ReadOutcome → List Read → Prop
  | enter {value : UInt8} (rest : List Read) (key : value = 0x0A ∨ value = 0x0D) :
      Closes text (.octet value :: rest) (.line text) rest
  | interrupt (rest : List Read) : Closes text (.octet 0x03 :: rest) .interrupted rest
  /-- The key that ends the input does so on an empty line only. -/
  | endKey (rest : List Read) (empty : text = "") :
      Closes text (.octet 0x04 :: rest) .endOfInput rest
  | noMore (empty : text = "") : Closes text [] .endOfInput []
  /-- At the end of the input a line is finished that has some text. -/
  | lastLine (nonempty : text ≠ "") : Closes text [] (.line text) []
  | fault (fault : FileFault) (rest : List Read) :
      Closes text (.failed fault :: rest) (.failed fault) rest

variable {editor : Editor} {s : LineState} {octet : UInt8} {outcome : ReadOutcome} {shown : String}

theorem recallLine_ne_done (recalled : Option (String × History)) :
    editor.recallLine s recalled ≠ .done outcome shown := by
  cases recalled <;> simp [recallLine]

theorem finishEscape_ne_done (second third : UInt8) :
    editor.finishEscape s second third ≠ .done outcome shown := by
  simp only [finishEscape]
  split
  · split
    · exact recallLine_ne_done _
    · split
      · exact recallLine_ne_done _
      · simp
  · simp

theorem completeText_ne_done : editor.completeText s ≠ .done outcome shown := by
  simp only [completeText]
  split <;> simp

theorem insert_ne_done : insert s octet ≠ .done outcome shown := by
  simp only [insert]
  split <;> simp

/-- An octet that ends the reading of a line is one of four keys. -/
theorem closes_of_press_done (rest : List Read)
    (hpress : editor.press s octet = .done outcome shown) :
    Closes s.buffer (.octet octet :: rest) outcome rest := by
  simp only [press] at hpress
  split at hpress
  case h_1 =>
    simp only [pressKey] at hpress
    split at hpress
    case isTrue hend =>
      split at hpress
      case isTrue hempty =>
        obtain ⟨rfl, -⟩ := Press.done.inj hpress
        exact hend ▸ .endKey rest hempty
      case isFalse => simp at hpress
    case isFalse =>
      split at hpress
      case isTrue hinterrupt =>
        obtain ⟨rfl, -⟩ := Press.done.inj hpress
        exact hinterrupt ▸ .interrupt rest
      case isFalse =>
        split at hpress
        case isTrue henter =>
          obtain ⟨rfl, -⟩ := Press.done.inj hpress
          exact .enter rest henter
        case isFalse =>
          split at hpress
          · exact absurd hpress completeText_ne_done
          · split at hpress
            · simp at hpress
            · split at hpress
              · simp [erase] at hpress
              · exact absurd hpress insert_ne_done
  case h_2 => simp at hpress
  case h_3 second hescape => exact absurd hpress (finishEscape_ne_done second octet)

/-- The reading of a line takes reads that leave the line open and do not fail, and then closes it
with the text that it has by then. -/
theorem exists_closes (s : LineState) (shown : String) (input : List Read) :
    ∃ before left state more, input = before ++ left ∧ (∀ fault, .failed fault ∉ before) ∧
      editor.pressAll s (Session.delivered before) = .goOn state more ∧
      Closes state.buffer left (editor.edit s shown input).outcome
        (editor.edit s shown input).rest := by
  induction input generalizing s shown with
  | nil =>
      refine ⟨[], [], s, "", rfl, by simp, rfl, ?_⟩
      by_cases hempty : s.buffer = ""
      · simpa [edit, hempty] using Closes.noMore hempty
      · simpa [edit, hempty] using Closes.lastLine hempty
  | cons read rest ih =>
      cases read with
      | interrupted =>
          obtain ⟨before, left, state, more, rfl, hsound, hopen, hcloses⟩ := ih s shown
          exact ⟨.interrupted :: before, left, state, more, rfl, by simpa using hsound, hopen,
            hcloses⟩
      | failed fault =>
          exact ⟨[], .failed fault :: rest, s, "", rfl, by simp, rfl, .fault fault rest⟩
      | octet value =>
          cases hpress : editor.press s value with
          | goOn next first =>
              obtain ⟨before, left, state, more, rfl, hsound, hopen, hcloses⟩ :=
                ih next (shown ++ first)
              refine ⟨.octet value :: before, left, state, first ++ more, rfl,
                by simpa using hsound, ?_, ?_⟩
              · change editor.pressAll s (value :: Session.delivered before) = _
                simp only [pressAll, hpress, hopen]
              · simpa only [edit, hpress] using hcloses
          | done outcome first =>
              refine ⟨[], .octet value :: rest, s, "", rfl, by simp, rfl, ?_⟩
              simpa only [edit, hpress] using closes_of_press_done rest hpress

/-- Outcomes after which a session may go on. -/
def MayGoOn : ReadOutcome → Prop
  | .line _ | .interrupted => True
  | .endOfInput | .failed _ => False

/-- A line that was empty at first takes an octet off the input before it is finished or
abandoned. -/
theorem length_delivered_lt {before left rest : List Read} {state : LineState} {more : String}
    (hstart : s.buffer = "") (hgo : MayGoOn outcome)
    (hopen : editor.pressAll s (Session.delivered before) = .goOn state more)
    (hcloses : Closes state.buffer left outcome rest) :
    (Session.delivered rest).length < (Session.delivered (before ++ left)).length := by
  have happend : Session.delivered (before ++ left) =
      Session.delivered before ++ Session.delivered left := List.filterMap_append ..
  rw [happend, List.length_append]
  cases hcloses with
  | enter rest key =>
      change _ < _ + ((_ : UInt8) :: Session.delivered rest).length
      rw [List.length_cons]
      omega
  | interrupt rest =>
      change _ < _ + ((0x03 : UInt8) :: Session.delivered rest).length
      rw [List.length_cons]
      omega
  | lastLine nonempty =>
      -- Some octet has put the text into the line.
      cases hbefore : Session.delivered before with
      | nil =>
          rw [hbefore] at hopen
          obtain ⟨rfl, -⟩ := Press.goOn.inj hopen
          exact absurd hstart nonempty
      | cons octet octets => simp [Session.delivered]
  | endKey | noMore | fault => exact hgo.elim

end Editor

end LineShell
