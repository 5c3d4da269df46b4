import LineShell.Proofs.PromptAgain

/-!
# Who sets the terminal

Between two commands the shell works on channels and files only: it opens redirects and pipes,
prints, closes what it opened and saves the history. The mode of the terminal is left to the
commands and to the reading of lines.
-/

namespace LineShell

namespace Machine

@[simp] theorem terminal_addChannel (m : Machine) (channel : Channel) :
    (m.addChannel channel).1.terminal = m.terminal := rfl

@[simp] theorem terminal_closeFrom (m : Machine) (first : Nat) :
    (m.closeFrom first).terminal = m.terminal := rfl

@[simp] theorem terminal_printOrSkip (m : Machine) (row : Nat) (text : String) :
    (m.printOrSkip row text).terminal = m.terminal := by
  unfold printOrSkip print
  split
  case h_1 hwrite =>
    obtain ⟨_, _, rfl⟩ := exists_eq_of_write hwrite
    rfl
  case h_2 => rfl

@[simp] theorem terminal_cutIfStarved (m : Machine) (input output : Nat) :
    (m.cutIfStarved input output).terminal = m.terminal := by
  unfold cutIfStarved cut
  split
  · split <;> rfl
  · rfl

@[simp] theorem terminal_reopenIfBlocked (m before : Machine) (input output : Nat) :
    (m.reopenIfBlocked before input output).terminal = m.terminal := by
  unfold reopenIfBlocked
  split
  · split <;> rfl
  · rfl

end Machine

namespace Redirection

theorem terminal_openFrom (r : Redirection) (m : Machine) (cwd : WorkingDirectory)
    (redirects : List Redirect) : (r.openFrom m cwd redirects).1.terminal = m.terminal := by
  induction redirects generalizing r m with
  | nil => rfl
  | cons redirect rest ih =>
      simp only [openFrom]
      split
      case h_1 => rfl
      case h_2 opened row hopen =>
        obtain ⟨_, _, rfl⟩ := Machine.exists_eq_of_openFile hopen
        rw [ih]
        unfold closeSuperseded
        split <;> rfl

end Redirection

namespace Session

@[simp] theorem terminal_lend (settings : Settings) (host : Host) (s : Session) :
    (s.lend settings host).terminal = s.machine.terminal := by
  unfold lend
  split <;> rfl

/-- Whatever mode the terminal is in while a line is read, it is restored. -/
theorem terminal_readLine (settings : Settings) (host : Host) (s : Session) :
    (s.readLine settings host).1.machine.terminal = s.machine.terminal := by
  simp only [readLine]
  split
  · exact Machine.terminal_printOrSkip ..
  · rfl

theorem terminal_saveHistory (file : Option String) (s : Session) :
    (saveHistory file s).machine.terminal = s.machine.terminal := by
  unfold saveHistory
  cases file with
  | none => rfl
  | some path =>
      have hsaved : (s.shell.history.save s.machine s.shell.directory path).1.terminal =
          s.machine.terminal := by
        obtain ⟨_, _, hsaved⟩ :=
          History.exists_eq_of_save s.shell.history s.machine s.shell.directory path
        rw [hsaved]
      rcases hsave : s.shell.history.save s.machine s.shell.directory path with ⟨after, result⟩
      rw [hsave] at hsaved
      cases result <;> simp only [hsave] <;> exact hsaved

theorem terminal_leaving (file : Option String) (last : Session) (ending : SessionEnd) :
    (leaving file last ending).machine.terminal = last.machine.terminal := by
  cases ending with
  | killed signal => rfl
  | finished code => exact terminal_saveHistory file last
  | inputFailed fault => exact terminal_saveHistory file last

end Session

end LineShell
