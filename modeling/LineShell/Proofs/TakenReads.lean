import LineShell.Proofs.InterruptedReads
import LineShell.Proofs.LastLine

/-!
# A line takes no read behind its own

A line that is closed before the input ends is closed by the last read that it takes. Whatever
stands behind this read makes no difference to the line and is left over. So the lines of an input
are those of its pieces, each read on its own.

## Implementation notes

Without the condition that the line is closed before the input ends, all reads may be taken because
there are no more. Such a line goes on with whatever is put behind them.
-/

namespace LineShell

namespace Editor

variable {editor : Editor} {s : LineState} {taken left : List Read} {history : History}
  {between : ReadOutcome → History → History}

/-- A line that is closed and leaves what stands behind some reads is closed within these, and takes
all of them. -/
theorem closed_of_rest_edit {shown : String} (hclosed : editor.openEnd? s (taken ++ left) = none)
    (hrest : (editor.edit s shown (taken ++ left)).rest = left) :
    editor.openEnd? s taken = none ∧ (editor.edit s shown taken).rest = [] := by
  cases hopen : editor.openEnd? s taken with
  | none =>
      refine ⟨rfl, ?_⟩
      rw [edit_append_of_closed hopen] at hrest
      exact List.append_left_eq_self.mp hrest
  | some state =>
      obtain ⟨typed, hedit⟩ := edit_append_of_open hopen shown
      by_cases hnothing : left = []
      · rw [hnothing, List.append_nil, hopen] at hclosed
        simp at hclosed
      · -- The line takes a read from what it is said to leave.
        have hless := length_rest_edit_lt editor left hnothing state (shown ++ typed)
        rw [← hedit, hrest] at hless
        exact absurd hless (Nat.lt_irrefl _)

theorem openEnd?_of_pressAll {before : List Read} {state : LineState} {more : String}
    (hsound : ∀ fault, .failed fault ∉ before)
    (h : editor.pressAll s (Session.delivered before) = .goOn state more) :
    editor.openEnd? s before = some state := by
  induction before generalizing s more with
  | nil =>
      obtain ⟨rfl, -⟩ := Press.goOn.inj h
      rfl
  | cons read rest ih =>
      have hlater : ∀ fault, .failed fault ∉ rest := fun fault hmem =>
        hsound fault (List.mem_cons_of_mem _ hmem)
      cases read with
      | interrupted => exact ih hlater h
      | failed fault => exact absurd List.mem_cons_self (hsound fault)
      | octet value =>
          obtain ⟨next, first, second, hpress, hrest, -⟩ := pressAll_cons_goOn h
          simp only [openEnd?, hpress]
          exact ih hlater hrest

/-- A line that is closed before the input ends is closed by the last read that it takes: by a key
that finishes or abandons it or ends the input, or because the reader fails. -/
theorem exists_closes_of_closed {shown : String} {input : List Read}
    (hclosed : editor.openEnd? s input = none) :
    ∃ before key text, input = before ++ key :: (editor.edit s shown input).rest ∧
      Closes text (key :: (editor.edit s shown input).rest) (editor.edit s shown input).outcome
        (editor.edit s shown input).rest := by
  obtain ⟨before, left, state, more, hinput, hsound, hopen, hcloses⟩ :=
    @exists_closes editor s shown input
  have hsplit : ∃ key, left = key :: (editor.edit s shown input).rest := by
    generalize (editor.edit s shown input).outcome = outcome at hcloses
    generalize (editor.edit s shown input).rest = rest at hcloses
    cases hcloses with
    | enter | interrupt | endKey | fault => exact ⟨_, rfl⟩
    | noMore | lastLine =>
        rw [hinput, List.append_nil, openEnd?_of_pressAll hsound hopen] at hclosed
        simp at hclosed
  obtain ⟨key, rfl⟩ := hsplit
  exact ⟨before, key, state.buffer, hinput, hcloses⟩

/-- Reads that a line takes, being closed with the last of them. -/
def Takes (editor : Editor) (history : History) (taken : List Read) : Prop :=
  editor.openEnd? (.start history) taken = none ∧ (editor.readLine history taken).rest = []

/-- What stands behind the reads that a line takes is left over, and does nothing else. -/
theorem Takes.readLine_append (h : editor.Takes history taken) (left : List Read) :
    editor.readLine history (taken ++ left) =
      { editor.readLine history taken with rest := left } := by
  obtain ⟨hclosed, hrest⟩ := h
  have hedit := edit_append_of_closed hclosed editor.prompt left
  rw [readLine] at hrest
  rw [readLine, hedit, hrest, List.nil_append, readLine]

/-- Every piece of an input is read on its own as one line, which leaves the pieces behind it and
what comes after them. -/
def readEach (editor : Editor) (between : ReadOutcome → History → History) (after : List Read) :
    History → List (List Read) → List LineRead
  | _, [] => []
  | history, piece :: pieces =>
    let r := editor.readLine history piece
    { r with rest := pieces.flatten ++ after } ::
      editor.readEach between after (between r.outcome r.history) pieces

/-- Every piece of an input is what one line takes. -/
def TakesEach (editor : Editor) (between : ReadOutcome → History → History) :
    History → List (List Read) → Prop
  | _, [] => True
  | history, piece :: pieces =>
    let r := editor.readLine history piece
    editor.Takes history piece ∧ editor.TakesEach between (between r.outcome r.history) pieces

theorem readLines_flatten {pieces : List (List Read)}
    (h : editor.TakesEach between history pieces) (after : List Read) :
    editor.readLines between pieces.length history (pieces.flatten ++ after) =
      editor.readEach between after history pieces := by
  induction pieces generalizing history with
  | nil => rfl
  | cons piece pieces ih =>
      obtain ⟨hpiece, hpieces⟩ := h
      have hread := hpiece.readLine_append (pieces.flatten ++ after)
      rw [List.flatten_cons, List.append_assoc, List.length_cons]
      simp only [readLines, readEach, hread, ih hpieces]

/-- A line that is closed before the input ends is closed by the last read that it takes, and
depends on nothing behind it: with anything else there it ends in the same way, shows the same,
leaves the same history with the same cursor, and what is behind the read is left over. So when
every piece of an input is what one line takes, the lines of the input are those of the pieces, each
read on its own. -/
theorem takes_no_more (editor : Editor) :
    (∀ (history : History) (taken left : List Read),
      editor.openEnd? (.start history) (taken ++ left) = none →
      (editor.readLine history (taken ++ left)).rest = left →
      (∃ before key text, taken = before ++ [key] ∧
        Closes text (key :: left) (editor.readLine history (taken ++ left)).outcome left) ∧
      ∀ other, editor.readLine history (taken ++ other) =
        { editor.readLine history (taken ++ left) with rest := other }) ∧
    ∀ (between : ReadOutcome → History → History) (history : History) (pieces : List (List Read))
      (after : List Read), editor.TakesEach between history pieces →
      editor.readLines between pieces.length history (pieces.flatten ++ after) =
        editor.readEach between after history pieces := by
  refine ⟨?_, fun _ _ _ after h => readLines_flatten h after⟩
  intro history taken left hclosed hrest
  have htakes : editor.Takes history taken := closed_of_rest_edit hclosed hrest
  refine ⟨?_, fun other => by rw [htakes.readLine_append other, htakes.readLine_append left]⟩
  obtain ⟨before, key, text, hinput, hcloses⟩ :=
    @exists_closes_of_closed editor _ editor.prompt _ hclosed
  rw [readLine] at hrest ⊢
  rw [hrest] at hinput hcloses
  refine ⟨before, key, text, ?_, hcloses⟩
  apply (List.append_left_inj left).mp
  rw [hinput, List.append_assoc, List.singleton_append]

/-- An editor that completes nothing. -/
def silent : Editor := ⟨"$ ", fun _ _ => .bell⟩

/-- The octets of some text, as reads. -/
def typing (text : String) : List Read := (octets text).map .octet

/-- A recalled line is finished behind a character of two octets, whatever comes then. Of three
pieces, one finishes a line, one abandons it, and one ends the input. -/
theorem takes_no_more_of_recalled_line :
    silent.readLine ⟨["pwd"], 1, 1⟩ (typing "\x1b[Aé\n" ++ typing "\ny") =
        ⟨.line "pwdé", "$ \r\x1b[2K$ pwdé\n", ⟨["pwd"], 0, 1⟩, typing "\ny"⟩ ∧
      silent.readLines (fun _ history => history) 3 ⟨["pwd"], 1, 1⟩ (typing "ls\na\x03\x04\x1b") =
        [⟨.line "ls", "$ ls\n", ⟨["pwd"], 1, 1⟩, typing "a\x03\x04\x1b"⟩,
          ⟨.interrupted, "$ a\n", ⟨["pwd"], 1, 1⟩, typing "\x04\x1b"⟩,
          ⟨.endOfInput, "$ \n", ⟨["pwd"], 1, 1⟩, typing "\x1b"⟩] := by
  obtain ⟨hone, hall⟩ := takes_no_more silent
  constructor
  · obtain ⟨-, hother⟩ := hone ⟨["pwd"], 1, 1⟩ (typing "\x1b[Aé\n") (typing "x") (by decide +kernel)
      (by decide +kernel)
    rw [hother (typing "\ny")]
    decide +kernel
  · have htakes : silent.TakesEach (fun _ history => history) ⟨["pwd"], 1, 1⟩
        [typing "ls\n", typing "a\x03", typing "\x04"] := by
      refine ⟨⟨?_, ?_⟩, ⟨?_, ?_⟩, ⟨?_, ?_⟩, trivial⟩ <;> decide +kernel
    have hlines := hall (fun _ history => history) ⟨["pwd"], 1, 1⟩ _ (typing "\x1b") htakes
    refine Eq.trans ?_ (hlines.trans ?_) <;> decide +kernel

end Editor

end LineShell
