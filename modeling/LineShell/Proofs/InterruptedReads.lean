import LineShell.Proofs.SessionHistory

/-!
# Interrupted reads change nothing

A read that was interrupted is repeated, wherever it happens: between two keys, within an escape,
within a character, or at the end of the input. So the reads that are not interrupted decide every
line, all that is shown, and how a session ends. The same reads are left over, too.

## Implementation notes

Reads that fail stay where they are. What commands take off the input is counted in octets, so it
is the same for an input with and without interrupted reads.
-/

namespace LineShell

/-- The reads that are not interrupted. -/
def uninterrupted : List Read → List Read := List.filter fun read => read ≠ .interrupted

@[simp] theorem uninterrupted_nil : uninterrupted [] = [] := rfl

@[simp] theorem uninterrupted_interrupted (rest : List Read) :
    uninterrupted (.interrupted :: rest) = uninterrupted rest := rfl

@[simp] theorem uninterrupted_octet (value : UInt8) (rest : List Read) :
    uninterrupted (.octet value :: rest) = .octet value :: uninterrupted rest := rfl

@[simp] theorem uninterrupted_failed (fault : FileFault) (rest : List Read) :
    uninterrupted (.failed fault :: rest) = .failed fault :: uninterrupted rest := rfl

namespace LineRead

/-- A line that was read, when interrupted reads are not counted among those that are left. -/
def uninterrupted (r : LineRead) : LineRead := { r with rest := LineShell.uninterrupted r.rest }

end LineRead

namespace Editor

variable {editor : Editor}

theorem edit_uninterrupted (s : LineState) (shown : String) (input : List Read) :
    editor.edit s shown (uninterrupted input) = (editor.edit s shown input).uninterrupted := by
  induction input generalizing s shown with
  | nil => rfl
  | cons read rest ih =>
      cases read with
      | interrupted => exact ih s shown
      | failed fault => rfl
      | octet value =>
          simp only [uninterrupted_octet, edit]
          cases editor.press s value with
          | goOn next more => exact ih next (shown ++ more)
          | done outcome more => rfl

/-- One line after the other, a given number of them. What becomes of the history between two lines
may depend on how the first of them ended. -/
def readLines (editor : Editor) (between : ReadOutcome → History → History) :
    Nat → History → List Read → List LineRead
  | 0, _, _ => []
  | n + 1, history, input =>
    let r := editor.readLine history input
    r :: editor.readLines between n (between r.outcome r.history) r.rest

theorem readLines_uninterrupted (between : ReadOutcome → History → History) (n : Nat)
    (history : History) (input : List Read) :
    editor.readLines between n history (uninterrupted input) =
      (editor.readLines between n history input).map LineRead.uninterrupted := by
  induction n generalizing history input with
  | zero => rfl
  | succ n ih =>
      have hread : editor.readLine history (uninterrupted input) =
          (editor.readLine history input).uninterrupted := edit_uninterrupted ..
      simp only [readLines, List.map_cons, hread]
      exact congrArg _ (ih _ _)

end Editor

namespace Session

/-- A session whose reads are not interrupted. -/
def uninterrupted (s : Session) : Session := { s with input := LineShell.uninterrupted s.input }

variable {settings : Settings} {host : Host} {s last : Session} {ending : SessionEnd}

theorem delivered_uninterrupted (input : List Read) :
    delivered (LineShell.uninterrupted input) = delivered input := by
  induction input with
  | nil => rfl
  | cons read rest ih =>
      cases read with
      | interrupted => exact ih
      | failed fault => exact ih
      | octet value => exact congrArg (value :: ·) ih

theorem dropOctets_uninterrupted (n : Nat) (input : List Read) :
    dropOctets n (LineShell.uninterrupted input) =
      LineShell.uninterrupted (dropOctets n input) := by
  fun_induction dropOctets n input with
  | case1 input => simp only [dropOctets]
  | case2 n => rfl
  | case3 n value rest ih | case4 n rest ih | case5 n fault rest ih => exact ih

theorem reclaim_uninterrupted (input : List Read) (m : Machine) :
    reclaim settings host (LineShell.uninterrupted input) m =
      LineShell.uninterrupted (reclaim settings host input m) := by
  simp only [reclaim, delivered_uninterrupted]
  split
  · exact dropOctets_uninterrupted ..
  · rfl

theorem readLine_uninterrupted :
    s.uninterrupted.readLine settings host =
      ((s.readLine settings host).1.uninterrupted, (s.readLine settings host).2) := by
  simp only [readLine, uninterrupted, Editor.readLine, Editor.edit_uninterrupted]
  rfl

theorem lend_uninterrupted : s.uninterrupted.lend settings host = s.lend settings host := by
  simp only [lend, uninterrupted, delivered_uninterrupted]

theorem runLine_uninterrupted (line : String) :
    s.uninterrupted.runLine settings host line =
      ((s.runLine settings host line).1.uninterrupted, (s.runLine settings host line).2) := by
  simp only [runLine, lend_uninterrupted]
  simp only [uninterrupted, reclaim_uninterrupted]
  split
  · rfl
  · split <;> rfl

theorem turn_uninterrupted :
    s.uninterrupted.turn settings host =
      ((s.turn settings host).1.uninterrupted, (s.turn settings host).2) := by
  simp only [turn, readLine_uninterrupted]
  rcases s.readLine settings host with ⟨ready, outcome⟩
  cases outcome with
  | line line => exact runLine_uninterrupted line
  | interrupted | endOfInput | failed => rfl

/-- A run takes the same turns when no read is interrupted. -/
theorem Runs.uninterrupted {lines : List String} (h : Runs settings host s lines last ending) :
    ∃ lines, Runs settings host s.uninterrupted lines last.uninterrupted ending := by
  induction h with
  | ends turn_eq =>
      refine ⟨_, .ends ?_⟩
      rw [turn_uninterrupted, turn_eq]
  | goesOn turn_eq rest ih =>
      obtain ⟨lines, hruns⟩ := ih
      refine ⟨_, .goesOn ?_ hruns⟩
      rw [turn_uninterrupted, turn_eq]

theorem loadHistory_uninterrupted (file : Option String) :
    loadHistory file s.uninterrupted = (loadHistory file s).uninterrupted := by
  simp only [loadHistory]
  split
  · rfl
  · simp only [uninterrupted]
    split <;> rfl

theorem saveHistory_uninterrupted (file : Option String) :
    saveHistory file s.uninterrupted = (saveHistory file s).uninterrupted := by
  simp only [saveHistory]
  split
  · rfl
  · simp only [uninterrupted]
    split <;> rfl

theorem leaving_uninterrupted (file : Option String) (ending : SessionEnd) :
    leaving file s.uninterrupted ending = (leaving file s ending).uninterrupted := by
  cases ending with
  | killed signal => rfl
  | finished code => exact saveHistory_uninterrupted file
  | inputFailed fault => exact saveHistory_uninterrupted file

theorem run_uninterrupted :
    run settings host s.uninterrupted =
      ((run settings host s).1.uninterrupted, (run settings host s).2) := by
  obtain ⟨lines, hruns⟩ := exists_runs settings host
    (Nat.lt_succ_self (loadHistory (historyFile settings s.shell) s).input.length)
  obtain ⟨others, hothers⟩ := hruns.uninterrupted
  rw [← loadHistory_uninterrupted] at hothers
  rw [run_eq_leaving hruns, run_eq_leaving (s := s.uninterrupted) hothers]
  exact congrArg (·, _) (leaving_uninterrupted ..)

end Session

/-- Interrupted reads change nothing. Lines that are read one after the other end in the same way,
show the same and leave the same history and the same other reads behind. A session ends in the same
way, with the same shell and machine, after the same has been shown. -/
theorem interrupted_reads_change_nothing :
    (∀ (editor : Editor) (between : ReadOutcome → History → History) (n : Nat) (history : History)
        (input : List Read),
      editor.readLines between n history (uninterrupted input) =
        (editor.readLines between n history input).map LineRead.uninterrupted) ∧
    ∀ (settings : Settings) (host : Host) (s : Session),
      Session.run settings host s.uninterrupted =
        ((Session.run settings host s).1.uninterrupted, (Session.run settings host s).2) :=
  ⟨fun _ => Editor.readLines_uninterrupted, fun _ _ _ => Session.run_uninterrupted⟩

end LineShell
