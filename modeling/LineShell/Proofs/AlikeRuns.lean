import LineShell.Proofs.AlikeSessions

/-!
# Runs that differ in their inputs only

A turn in which the same is read keeps alike sessions alike. So do all turns of a run when the same
keys are left, and what such runs leave behind is alike, too: neither loading nor saving the history
looks at the input.

## Implementation notes

`Session.LeavesInput` is about the lines that a session comes to and not about all lines, so that a
session may have commands that would read the input, as long as no line calls them.
-/

namespace LineShell

namespace Session

variable {settings : Settings} {host : Host} {s t next : Session} {m : Machine} {contents : Bytes}
  {offset : Nat}

/-! ## Turns -/

/-- Sessions that a session comes to, one turn after the other. -/
inductive Reaches (settings : Settings) (host : Host) : Session → Session → Prop
  | refl (s : Session) : Reaches settings host s s
  | turn {s next t : Session} (turn_eq : s.turn settings host = (next, none))
      (rest : Reaches settings host next t) : Reaches settings host s t

/-- Every line that a session comes to has some property, in the session in which it is run. -/
def OnLines (settings : Settings) (host : Host) (P : Session → String → Prop) (s : Session) :
    Prop :=
  ∀ t ready line, Reaches settings host s t → t.readLine settings host = (ready, .line line) →
    P ready line

theorem OnLines.turn {P : Session → String → Prop} (h : OnLines settings host P s)
    (hturn : s.turn settings host = (next, none)) : OnLines settings host P next :=
  fun t ready line hreaches hread => h t ready line (.turn hturn hreaches) hread

/-- What holds of all lines is decided turn by turn. -/
theorem OnLines.of_turn {P : Session → String → Prop}
    (hline : ∀ line, (s.reading settings).outcome = .line line →
      P (s.readLine settings host).1 line)
    (hnext : ∀ next, s.turn settings host = (next, none) → OnLines settings host P next) :
    OnLines settings host P s := by
  intro t ready line hreaches hread
  cases hreaches with
  | refl =>
      rw [readLine_eq] at hread
      obtain ⟨rfl, houtcome⟩ := Prod.mk.inj hread
      exact hline line houtcome
  | turn turn_eq rest => exact hnext _ turn_eq t ready line rest hread

/-- No command of a session reads the input of the shell. -/
def LeavesInput (settings : Settings) (host : Host) (s : Session) : Prop :=
  ∀ t ready line, Reaches settings host s t → t.readLine settings host = (ready, .line line) →
    LineLeavesInput settings host ready line

theorem LeavesInput.turn (h : LeavesInput settings host s)
    (hturn : s.turn settings host = (next, none)) : LeavesInput settings host next :=
  OnLines.turn h hturn

/-- Whether the input is left alone is decided turn by turn. -/
theorem LeavesInput.of_turn
    (hline : ∀ line, (s.reading settings).outcome = .line line →
      LineLeavesInput settings host (s.readLine settings host).1 line)
    (hnext : ∀ next, s.turn settings host = (next, none) → LeavesInput settings host next) :
    LeavesInput settings host s :=
  OnLines.of_turn hline hnext

theorem turn_eq (settings : Settings) (host : Host) (s : Session) :
    s.turn settings host =
      match (s.reading settings).outcome with
      | .line line => (s.readLine settings host).1.runLine settings host line
      | .interrupted => ((s.readLine settings host).1, none)
      | .endOfInput => ((s.readLine settings host).1, some (.finished 0))
      | .failed fault => ((s.readLine settings host).1, some (.inputFailed fault)) := by
  simp only [Session.turn, readLine_eq]
  cases (s.reading settings).outcome <;> rfl

/-- A turn in which the same is read keeps sessions alike, and takes what is read off each input. -/
theorem InStep.turn (h : InStep settings host s t) (hleaves : LeavesInput settings host s)
    {left : List Read} (hreading : t.reading settings = { s.reading settings with rest := left }) :
    (t.turn settings host).2 = (s.turn settings host).2 ∧
      InStep settings host (s.turn settings host).1 (t.turn settings host).1 ∧
      (s.turn settings host).1.input = (s.reading settings).rest ∧
      (t.turn settings host).1.input = left := by
  have hready := h.readLine (by rw [hreading]) (by rw [hreading])
  have hline := hleaves s (s.readLine settings host).1
  have hleft : (t.readLine settings host).1.input = left := by
    rw [readLine_eq, hreading]
  rw [turn_eq, turn_eq, hreading]
  cases hread : (s.reading settings).outcome with
  | line line =>
      have hkept := hline line (.refl s) (hread ▸ readLine_eq settings host s)
      obtain ⟨hending, hafter⟩ := hready.runLine hkept
      exact ⟨hending, hafter, (hready.fed.runLine hkept).1,
        (hready.other.runLine (hready.lineLeavesInput hkept)).1.trans hleft⟩
  | interrupted | endOfInput | failed => exact ⟨rfl, hready, rfl, hleft⟩

@[simp] theorem fatal?_printOrSkip (row : Nat) (text : String) :
    fatal? settings host (m.printOrSkip row text) = fatal? settings host m := by
  simp only [fatal?, Machine.signals_printOrSkip]

@[simp] theorem fatal?_readLine :
    fatal? settings host (s.readLine settings host).1.machine =
      fatal? settings host s.machine := by
  simp only [readLine_eq]
  split
  · exact fatal?_printOrSkip ..
  · rfl

/-- A session that goes on has not been sent a signal that ends it. -/
theorem fatal?_turn (halive : fatal? settings host s.machine = none)
    (hturn : s.turn settings host = (next, none)) : fatal? settings host next.machine = none := by
  rw [turn_eq] at hturn
  split at hturn
  case h_1 line _ =>
    have hsurvives : fatal? settings host
        ((s.readLine settings host).1.executed settings host line).1 = none := by
      rw [runLine_eq_settle, settle] at hturn
      split at hturn
      · simp at hturn
      · assumption
    rw [runLine_eq_settle] at hturn
    obtain hmachine | ⟨text, hmachine⟩ := machine_settle settings host
      (s.readLine settings host).1 ((s.readLine settings host).1.executed settings host line)
    · rw [hturn] at hmachine
      rwa [hmachine]
    · rw [hturn] at hmachine
      rwa [hmachine, fatal?_printOrSkip]
  case h_2 =>
    obtain rfl := (Prod.mk.inj hturn).1
    rwa [fatal?_readLine]
  case h_3 => simp at hturn
  case h_4 => simp at hturn

/-- A run takes the same turns in an alike session of which the same is read, down to what is left
after the first line. -/
theorem InStep.exists_runs {lines : List String} {last : Session} {ending : SessionEnd}
    (h : InStep settings host s t) (hreading : t.reading settings = s.reading settings)
    (hleaves : LeavesInput settings host s) (hruns : Runs settings host s lines last ending) :
    ∃ others final, Runs settings host t others final ending ∧ InStep settings host last final := by
  induction hruns generalizing t with
  | @ends s last ending turn_eq =>
      obtain ⟨hending, hlast, -⟩ := h.turn hleaves hreading
      rw [turn_eq] at hending hlast
      exact ⟨_, _, .ends (Prod.ext rfl hending), hlast⟩
  | @goesOn s next last lines ending turn_eq rest ih =>
      obtain ⟨hending, hnext, hfirst, hsecond⟩ := h.turn hleaves hreading
      rw [turn_eq] at hending hnext hfirst
      have hinput : (t.turn settings host).1.input = next.input := hsecond.trans hfirst.symm
      obtain ⟨others, final, hothers, hlast⟩ :=
        ih hnext (hnext.reading_eq hinput) (hleaves.turn turn_eq)
      exact ⟨_, final, .goesOn (Prod.ext rfl hending) hothers, hlast⟩

/-! ## The history file -/

theorem machine_loadHistory (file : Option String) (s : Session) :
    (loadHistory file s).machine = s.machine := by
  simp only [loadHistory]
  split
  · rfl
  · split <;> rfl

theorem Fed.loadHistory (h : Fed settings host s) (file : Option String) :
    Fed settings host (loadHistory file s) := by
  rwa [Fed, machine_loadHistory, input_loadHistory]

theorem InStep.loadHistory (h : InStep settings host s t) (file : Option String) :
    InStep settings host (loadHistory file s) (loadHistory file t) := by
  obtain ⟨contents, offset, hmachine⟩ := h.machine
  refine ⟨?_, h.fed.loadHistory file, h.other.loadHistory file⟩
  cases file with
  | none => exact h.toAlike
  | some path =>
      simp only [Session.loadHistory, h.shell, hmachine, volume_withTape]
      cases s.shell.history.loadInitial s.machine.volume s.shell.directory path with
      | ok history => exact ⟨rfl, h.shown, h.modes, contents, offset, rfl⟩
      | error fault => exact ⟨h.shell, h.shown, h.modes, contents, offset, hmachine⟩

/-- Saving the history does not depend on the file on the input. -/
theorem Holding.save_withTape {count : Nat} (h : Holding settings host m count) (history : History)
    (cwd : WorkingDirectory) (path : String) :
    history.save (withTape settings host contents offset m) cwd path =
      (withTape settings host contents offset (history.save m cwd path).1,
        (history.save m cwd path).2) := by
  simp only [withTape]
  split
  · rename_i hshared
    obtain ⟨_, _, hrow, -⟩ := h hshared
    exact History.save_setChannel (List.getElem?_eq_some_iff.mp hrow).1 ..
  · rfl

theorem InStep.saveHistory (h : InStep settings host s t) (file : Option String) :
    Alike settings host (saveHistory file s) (saveHistory file t) := by
  obtain ⟨contents, offset, hmachine⟩ := h.machine
  cases file with
  | none => exact h.toAlike
  | some path =>
      rcases hsave : s.shell.history.save s.machine s.shell.directory path with
        ⟨after, fault | history⟩
      all_goals
        simp only [Session.saveHistory, h.shell, hmachine, h.fed.save_withTape, hsave]
      · exact ⟨rfl, h.shown, h.modes, contents, offset, rfl⟩
      · exact ⟨rfl, h.shown, h.modes, contents, offset, rfl⟩

theorem InStep.leaving (h : InStep settings host s t) (file : Option String)
    (ending : SessionEnd) :
    Alike settings host (leaving file s ending) (leaving file t ending) := by
  cases ending with
  | killed signal => exact h.toAlike
  | finished code => exact h.saveHistory file
  | inputFailed fault => exact h.saveHistory file

end Session

end LineShell
