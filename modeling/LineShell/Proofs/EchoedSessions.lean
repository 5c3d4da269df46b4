import LineShell.Proofs.CommonBeginnings
import LineShell.Proofs.UnseenText

/-!
# Sessions of which one has shown more

A session that has shown some text more than another one takes the same turns, as long as its
commands do the same whatever was shown before, and it leaves the same behind.

## Implementation notes

The terminal modes in which lines were read are of no consequence for a session, so they need not be
the same here. The rows of input and output have to be told apart, since commands are lent the one
and the text stands in the other.
-/

namespace LineShell

namespace Session

variable {settings : Settings} {host : Host} {s t last : Session} {m n : Machine}
  {before echo line : String}

/-! ## The machine -/

/-- A machine, with some text more that was shown on its output if lines are shown there. -/
inductive ShownOn (settings : Settings) (host : Host) (echo : String) (m : Machine) :
    Machine → Prop
  | elsewhere (own_eq : settings.standardStreams = false) : ShownOn settings host echo m m
  | output {n : Machine} (shared_eq : settings.standardStreams = true)
      (echoed : m.Echoed host.streams.output (octets echo) n) : ShownOn settings host echo m n

theorem ShownOn.machine_eq (h : ShownOn settings host echo m n)
    (hown : settings.standardStreams = false) : n = m := by
  cases h with
  | elsewhere => rfl
  | output shared_eq echoed => simp [hown] at shared_eq

theorem ShownOn.echoed (h : ShownOn settings host echo m n)
    (hshared : settings.standardStreams = true) :
    m.Echoed host.streams.output (octets echo) n := by
  cases h with
  | elsewhere own_eq => simp [hshared] at own_eq
  | output shared_eq echoed => exact echoed

theorem ShownOn.exists_eq (h : ShownOn settings host echo m n) :
    ∃ channels, n = { m with channels := channels } := by
  cases h with
  | elsewhere own_eq => exact ⟨m.channels, rfl⟩
  | output shared_eq echoed => exact echoed.exists_eq

theorem ShownOn.volume_eq (h : ShownOn settings host echo m n) : n.volume = m.volume := by
  obtain ⟨_, rfl⟩ := h.exists_eq
  rfl

theorem ShownOn.fatal?_eq (h : ShownOn settings host echo m n) :
    fatal? settings host n = fatal? settings host m := by
  obtain ⟨_, rfl⟩ := h.exists_eq
  rfl

theorem ShownOn.printOrSkip (h : ShownOn settings host echo m n) (row : Nat) (text : String) :
    ShownOn settings host echo (m.printOrSkip row text) (n.printOrSkip row text) := by
  cases h with
  | elsewhere own_eq => exact .elsewhere own_eq
  | output shared_eq echoed => exact .output shared_eq (echoed.printOrSkip row text)

theorem ShownOn.save (h : ShownOn settings host echo m n) (history : History)
    (cwd : WorkingDirectory) (path : String) :
    ShownOn settings host echo (history.save m cwd path).1 (history.save n cwd path).1 ∧
      (history.save n cwd path).2 = (history.save m cwd path).2 := by
  cases h with
  | elsewhere own_eq => exact ⟨.elsewhere own_eq, rfl⟩
  | output shared_eq echoed =>
      obtain ⟨hsaved, hresult⟩ := History.echoes_writeFrom echoed history cwd path 0 false
      exact ⟨.output shared_eq hsaved, hresult⟩

/-- The input of the shell, if it is shared, is not in the row of the output. -/
def TellsApart (settings : Settings) (host : Host) : Prop :=
  settings.standardStreams = true → host.streams.output ≠ host.streams.input

theorem ShownOn.reclaim_eq (h : ShownOn settings host echo m n)
    (hapart : TellsApart settings host) (input : List Read) :
    reclaim settings host input n = reclaim settings host input m := by
  cases h with
  | elsewhere own_eq => rfl
  | output shared_eq echoed => simp only [reclaim, echoed.unread_of_ne (hapart shared_eq)]

/-! ## Lines and turns -/

/-- The session `t` is `s`, but has shown some text more after what was shown before. -/
structure Echoed (settings : Settings) (host : Host) (before echo : String) (s t : Session) :
    Prop where
  shell : t.shell = s.shell
  input : t.input = s.input
  shown : ∃ more, s.shown = before ++ more ∧ t.shown = before ++ echo ++ more
  machine : ShownOn settings host echo s.machine t.machine

theorem Echoed.reading_eq (h : Echoed settings host before echo s t) :
    t.reading settings = s.reading settings := by
  simp only [reading, Session.editor, h.shell, h.input, h.machine.volume_eq]

theorem Echoed.readLine (h : Echoed settings host before echo s t) :
    Echoed settings host before echo (s.readLine settings host).1
      (t.readLine settings host).1 := by
  obtain ⟨more, hs, ht⟩ := h.shown
  simp only [readLine_eq, h.reading_eq, h.shell]
  refine ⟨rfl, rfl, ⟨more ++ (s.reading settings).shown, ?_, ?_⟩, ?_⟩
  · simp only [hs, String.append_assoc]
  · simp only [ht, String.append_assoc]
  · dsimp only
    split
    · exact h.machine.printOrSkip ..
    · exact h.machine

theorem Echoed.lend (h : Echoed settings host before echo s t)
    (hapart : TellsApart settings host) :
    ShownOn settings host echo (s.lend settings host) (t.lend settings host) := by
  have hmachine := h.machine
  simp only [Session.lend, h.input]
  generalize t.machine = n at hmachine
  cases hmachine with
  | elsewhere own_eq => exact .elsewhere own_eq
  | output shared_eq echoed =>
      have hne := hapart shared_eq
      refine .output shared_eq ?_
      simp only [shared_eq, if_true, inputChannel, echoed.channel?_of_ne hne]
      exact echoed.setChannel hne _

/-- The commands on a line do the same whatever was shown before, if it is shown on their output. -/
def LineIgnoresShown (settings : Settings) (host : Host) (s : Session) (line : String) : Prop :=
  settings.standardStreams = true →
    Execution.IgnoresShown host (s.recording line) (s.lend settings host) line

/-- If the programs do the same whatever was shown before, so do the commands on every line. -/
theorem onLines_ignoresShown (hapart : TellsApart settings host)
    (hprograms : settings.standardStreams = true → host.programs.Ignore host.streams.output)
    (s : Session) : OnLines settings host (LineIgnoresShown settings host) s := by
  intro t ready line hreaches hread hshared echo n h
  exact Execution.echoes_runLine (hprograms hshared) h (hapart hshared) _ line

theorem Echoed.executed (h : Echoed settings host before echo s t)
    (hapart : TellsApart settings host) (hignores : LineIgnoresShown settings host s line) :
    ShownOn settings host echo (s.executed settings host line).1
        (t.executed settings host line).1 ∧
      (t.executed settings host line).2 = (s.executed settings host line).2 := by
  have hrecording : t.recording line = s.recording line := by
    simp only [recording, h.shell]
  have hlend := h.lend hapart
  simp only [Session.executed, hrecording]
  generalize t.lend settings host = lent at hlend
  cases hlend with
  | elsewhere own_eq => exact ⟨.elsewhere own_eq, rfl⟩
  | output shared_eq echoed =>
      obtain ⟨hdone, hresult⟩ := hignores shared_eq _ _ echoed
      exact ⟨.output shared_eq hdone, hresult⟩

/-- A session that has shown more still does after a line is run, if the commands on the line do the
same in both. -/
theorem Echoed.runLine (h : Echoed settings host before echo s t)
    (hapart : TellsApart settings host) (hignores : LineIgnoresShown settings host s line) :
    (t.runLine settings host line).2 = (s.runLine settings host line).2 ∧
      Echoed settings host before echo (s.runLine settings host line).1
        (t.runLine settings host line).1 := by
  obtain ⟨hmachine, hresult⟩ := h.executed hapart hignores
  have hinput := hmachine.reclaim_eq hapart s.input
  simp only [runLine_eq_settle, settle, afterRun, hresult, hmachine.fatal?_eq, h.input, hinput]
  split
  · exact ⟨rfl, rfl, rfl, h.shown, hmachine⟩
  · split
    · exact ⟨rfl, rfl, rfl, h.shown, hmachine⟩
    · exact ⟨rfl, rfl, rfl, h.shown, hmachine⟩
    · exact ⟨rfl, rfl, rfl, h.shown, hmachine.printOrSkip ..⟩

theorem Echoed.turn (h : Echoed settings host before echo s t)
    (hapart : TellsApart settings host)
    (hignores : OnLines settings host (LineIgnoresShown settings host) s) :
    (t.turn settings host).2 = (s.turn settings host).2 ∧
      Echoed settings host before echo (s.turn settings host).1 (t.turn settings host).1 := by
  have hready := h.readLine
  have hline := hignores s (s.readLine settings host).1
  rw [turn_eq, turn_eq, h.reading_eq]
  cases hread : (s.reading settings).outcome with
  | line line => exact hready.runLine hapart (hline line (.refl s) (hread ▸ readLine_eq ..))
  | interrupted | endOfInput | failed => exact ⟨rfl, hready⟩

/-- All turns of a run are taken by a session that has shown more, too. -/
theorem Echoed.exists_runs {lines : List String} {ending : SessionEnd}
    (h : Echoed settings host before echo s t) (hapart : TellsApart settings host)
    (hignores : OnLines settings host (LineIgnoresShown settings host) s)
    (hruns : Runs settings host s lines last ending) :
    ∃ others final, Runs settings host t others final ending ∧
      Echoed settings host before echo last final := by
  induction hruns generalizing t with
  | @ends s last ending turn_eq =>
      obtain ⟨hending, hlast⟩ := h.turn hapart hignores
      rw [turn_eq] at hending hlast
      exact ⟨_, _, .ends (Prod.ext rfl hending), hlast⟩
  | @goesOn s next last lines ending turn_eq rest ih =>
      obtain ⟨hending, hnext⟩ := h.turn hapart hignores
      rw [turn_eq] at hending hnext
      obtain ⟨others, final, hothers, hlast⟩ :=
        ih hnext (hignores.turn turn_eq)
      exact ⟨_, final, .goesOn (Prod.ext rfl hending) hothers, hlast⟩

/-! ## The end of the session -/

theorem Echoed.saveHistory (h : Echoed settings host before echo s t) (file : Option String) :
    Echoed settings host before echo (saveHistory file s) (saveHistory file t) := by
  cases file with
  | none => exact h
  | some path =>
      obtain ⟨hmachine, hresult⟩ := h.machine.save s.shell.history s.shell.directory path
      simp only [Session.saveHistory, h.shell]
      revert hmachine hresult
      rcases s.shell.history.save s.machine s.shell.directory path with ⟨after, fault | history⟩
      all_goals
        rcases s.shell.history.save t.machine s.shell.directory path with ⟨final, result⟩
        rintro hmachine rfl
        exact ⟨rfl, h.input, h.shown, hmachine⟩

theorem Echoed.leaving (h : Echoed settings host before echo s t) (file : Option String)
    (ending : SessionEnd) :
    Echoed settings host before echo (leaving file s ending) (leaving file t ending) := by
  cases ending with
  | killed signal => exact h
  | finished code | inputFailed fault => exact h.saveHistory file

end Session

end LineShell
