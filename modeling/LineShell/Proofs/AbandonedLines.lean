import LineShell.Proofs.EchoedSessions
import LineShell.Proofs.FinalNewline

/-!
# Abandoned lines

A line that is abandoned leaves no trace but what was shown while it was edited: the session goes on
as if its keys had never been typed. It ends in the same way, in the same directory, with the same
history and the same machine. If lines are shown on the standard output, then what was shown is in
the stream there, among what the commands have written.

## Implementation notes

Two steps lead from a session in which the line is abandoned to the one without its keys: the text
that was shown is taken away (`Session.Echoed`), and the file on the input is replaced by one that
never held the keys (`Session.InStep`). What was recalled while the line was edited is forgotten
when the next line is read (`Session.fresh`).
-/

namespace LineShell

namespace Session

variable {settings : Settings} {host : Host} {s t : Session} {text : String} {rest : List Read}

/-! ## What is left of an abandoned line -/

/-- Of reading a line nothing is left but what was shown and the keys that are left. -/
theorem fresh_readLine (settings : Settings) (host : Host) (s : Session) :
    (s.readLine settings host).1.fresh =
      s.showing settings host s.shell.history.resetCursor (s.reading settings).shown
        (s.reading settings).rest := by
  have hhistory : (s.reading settings).history.resetCursor = s.shell.history.resetCursor :=
    Editor.resetCursor_readLine ..
  simp only [readLine_eq_showing, fresh, showing, hhistory]

/-- What is shown on the standard output is taken there, if lines are shown on it. -/
def TakesShown (settings : Settings) (host : Host) (m : Machine) : Prop :=
  settings.standardStreams = true → ∃ waiting, m.Holds host.streams.output waiting

theorem echoed_showing (htakes : TakesShown settings host s.machine) (text : String) :
    Echoed settings host s.shown text s.fresh
      (s.showing settings host s.shell.history.resetCursor text s.input) := by
  refine ⟨rfl, rfl, ⟨"", by simp [fresh], by simp [showing]⟩, ?_⟩
  cases hshared : settings.standardStreams with
  | false =>
      simp only [showing, fresh, hshared, Bool.false_eq_true, if_false]
      exact .elsewhere hshared
  | true =>
      obtain ⟨waiting, hholds⟩ := htakes hshared
      simp only [showing, fresh, hshared, if_true]
      exact .output hshared (hholds.echoed_printOrSkip text)

/-- What can be written to differs from what can be read from. -/
theorem Fed.tellsApart (h : Fed settings host s) (htakes : TakesShown settings host s.machine) :
    TellsApart settings host := by
  intro hshared hsame
  obtain ⟨contents, offset, hinput, -⟩ := h hshared
  obtain ⟨waiting, stream, houtput, -⟩ := htakes hshared
  rw [hsame, hinput] at houtput
  simp at houtput

theorem Alike.takesShown (h : Alike settings host s t) (hapart : TellsApart settings host)
    (htakes : TakesShown settings host s.machine) : TakesShown settings host t.machine := by
  intro hshared
  obtain ⟨contents, offset, hmachine⟩ := h.machine
  obtain ⟨waiting, stream, houtput, hopen⟩ := htakes hshared
  refine ⟨waiting, stream, ?_, hopen⟩
  rw [hmachine, withTape, if_pos hshared]
  exact (Machine.channel?_setChannel_of_ne (hapart hshared).symm).trans houtput

theorem InStep.symm (h : InStep settings host s t) : InStep settings host t s := by
  obtain ⟨contents, offset, hmachine⟩ := h.machine
  refine ⟨⟨h.shell.symm, h.shown.symm, h.modes.symm, ?_⟩, h.other, h.fed⟩
  rw [hmachine]
  cases hshared : settings.standardStreams with
  | false => exact ⟨contents, offset, by simp [withTape, hshared]⟩
  | true =>
      obtain ⟨before, start, hrow, -⟩ := h.fed hshared
      refine ⟨before, start, ?_⟩
      rw [withTape_withTape, withTape, if_pos hshared, Machine.setChannel_of_channel? hrow]

/-! ## Going on after it -/

/-- A session in which a line is abandoned, and one without the keys of the line: they end in the
same way, and in sessions that differ in what was shown and in their inputs only. -/
theorem InStep.exists_runs_of_abandoned (h : InStep settings host s t)
    (htakes : TakesShown settings host s.machine) (hleaves : LeavesInput settings host s)
    (hignores : OnLines settings host (LineIgnoresShown settings host) t)
    (houtcome : (s.reading settings).outcome = .interrupted)
    (hrest : (s.reading settings).rest = t.input) :
    ∃ lines others last other final ending,
      Runs settings host t lines last ending ∧ Runs settings host s others other ending ∧
      Echoed settings host s.shown (s.reading settings).shown last final ∧
      InStep settings host other final := by
  have hturn : s.turn settings host = ((s.readLine settings host).1, none) := by
    rw [turn_eq, houtcome]
  have hapart := h.fed.tellsApart htakes
  -- The keys are taken away first and then what was shown.
  have hechoed := echoed_showing (h.toAlike.takesShown hapart htakes) (s.reading settings).shown
  have hkeys := h.showing (rest_reading_suffix settings s) List.suffix_rfl
    s.shell.history.resetCursor (s.reading settings).shown
  rw [h.shown, h.shell] at hechoed
  rw [← fresh_readLine] at hkeys
  obtain ⟨lines, hruns⟩ := Session.exists_runs settings host (Nat.lt_succ_self t.fresh.input.length)
  obtain ⟨others, hothers⟩ := Session.exists_runs settings host
    (Nat.lt_succ_self (s.readLine settings host).1.fresh.input.length)
  obtain ⟨_, final, hfinal, hlast⟩ := hechoed.exists_runs hapart hignores.fresh hruns
  obtain ⟨_, final', hfinal', hother⟩ := hkeys.exists_runs
    (hkeys.reading_eq hrest.symm) (OnLines.fresh (hleaves.turn hturn)) hothers
  obtain ⟨rfl, hending⟩ := runs_unique hfinal hfinal'
  rw [hending] at hothers
  exact ⟨_, _, _, _, _, _, runs_of_fresh hruns, .goesOn hturn (runs_of_fresh hothers), hlast,
    hother⟩

/-- A run over some keys, among which are those of a line that is abandoned, ends as the run without
these keys does, with the same directory and history. What was shown while the line was edited comes
after what had been shown until then. The machine is the same; but if lines are shown on the
standard output, it has this text more there, and another file on the input. In that case the
commands have to leave the input alone and to do the same whatever was shown before, as they do if
the programs do (`onLines_ignoresShown`), and the output has to be a stream that takes what is
shown. -/
theorem runOver_of_abandoned (settings : Settings) (host : Host) (shell : Shell) (m : Machine)
    (first abandoned rest : List Read) (s : Session)
    (hrow : settings.standardStreams = true → host.streams.input < m.channels.length)
    (hleaves : LeavesInput settings host
      (begun settings host shell m (first ++ abandoned ++ rest)))
    (hignores : OnLines settings host (LineIgnoresShown settings host)
      (begun settings host shell m (first ++ rest)))
    (hreaches : Reaches settings host
      (begun settings host shell m (first ++ abandoned ++ rest)) s)
    (hinput : s.input = abandoned ++ rest)
    (houtcome : (s.reading settings).outcome = .interrupted)
    (hrest : (s.reading settings).rest = rest)
    (htakes : TakesShown settings host s.machine) :
    (runOver settings host shell m (first ++ abandoned ++ rest)).2 =
        (runOver settings host shell m (first ++ rest)).2 ∧
      (runOver settings host shell m (first ++ abandoned ++ rest)).1.shell =
        (runOver settings host shell m (first ++ rest)).1.shell ∧
      (∃ more,
        (runOver settings host shell m (first ++ rest)).1.shown = s.shown ++ more ∧
        (runOver settings host shell m (first ++ abandoned ++ rest)).1.shown =
          s.shown ++ (s.reading settings).shown ++ more) ∧
      (settings.standardStreams = false →
        (runOver settings host shell m (first ++ abandoned ++ rest)).1.machine =
          (runOver settings host shell m (first ++ rest)).1.machine) ∧
      (settings.standardStreams = true → ∃ n contents offset,
        (runOver settings host shell m (first ++ rest)).1.machine.Echoed host.streams.output
          (octets (s.reading settings).shown) n ∧
        (runOver settings host shell m (first ++ abandoned ++ rest)).1.machine =
          n.setChannel host.streams.input (.tape contents offset)) := by
  have hsome : s.input ≠ [] := by
    intro hnothing
    rw [reading_of_nil hnothing] at houtcome
    simp at houtcome
  -- Without the keys of the line the same turns are taken up to it, and from there on.
  have hstep := (inStep_beginning shell (first ++ abandoned ++ rest) (first ++ rest)
    hrow).loadHistory (historyFile settings shell)
  obtain ⟨t, hother, ht, hleft⟩ := hstep.exists_reaches hleaves hreaches
    (by rw [input_loadHistory, hinput, ← List.append_assoc]; rfl)
    (by rw [input_loadHistory]; rfl) hsome
  obtain ⟨_, _, last, other, final, ending, hruns, hothers, hlast, hfinal⟩ :=
    ht.exists_runs_of_abandoned htakes (OnLines.of_reaches hleaves hreaches)
      (hignores.of_reaches hother) houtcome (hrest.trans hleft.symm)
  obtain ⟨_, hruns⟩ := hother.exists_runs hruns
  obtain ⟨_, hothers⟩ := hreaches.exists_runs hothers
  have hfirst : runOver settings host shell m (first ++ rest) =
      (leaving (historyFile settings shell) last ending, ending) := run_eq_leaving hruns
  have hsecond : runOver settings host shell m (first ++ abandoned ++ rest) =
      (leaving (historyFile settings shell) other ending, ending) := run_eq_leaving hothers
  have hechoed := hlast.leaving (historyFile settings shell) ending
  have halike := hfinal.symm.leaving (historyFile settings shell) ending
  obtain ⟨contents, offset, hmachine⟩ := halike.machine
  rw [hfirst, hsecond]
  refine ⟨rfl, halike.shell.trans hechoed.shell, ?_, fun hown => ?_, fun hshared => ?_⟩
  · rw [halike.shown]
    exact hechoed.shown
  · exact (halike.machine_eq hown).trans (hechoed.machine.machine_eq hown)
  · refine ⟨_, contents, offset, hechoed.machine.echoed hshared, ?_⟩
    rw [hmachine, withTape, if_pos hshared]

/-! ## Sessions of one command -/

/-- The only command on a line is `echo`. -/
def IsEcho (line : String) : Prop :=
  ∃ operands, parseLine line = [⟨"echo", operands, []⟩]

theorem Fed.lineLeavesInput_echo (h : Fed settings host s) {line : String} (hecho : IsEcho line) :
    LineLeavesInput settings host s line := by
  intro hshared
  obtain ⟨operands, hparse⟩ := hecho
  obtain ⟨contents, -, hlend⟩ := h.lend_eq
  obtain ⟨_, _, hrow, -⟩ := h hshared
  have hlent : (s.lend settings host).channel? host.streams.input =
      some (.tape contents (contents.length - (delivered s.input).length)) := by
    rw [hlend, withTape, if_pos hshared, Machine.channel?_setChannel_self, hrow]
    rfl
  exact Execution.leavesInput_echo hparse hlent

/-- Commands that leave the input alone leave the keys on it until the next turn. -/
theorem Fed.turn (h : Fed settings host s)
    (hline : ∀ line, (s.reading settings).outcome = .line line →
      LineLeavesInput settings host (s.readLine settings host).1 line) :
    Fed settings host (s.turn settings host).1 := by
  rw [turn_eq]
  cases houtcome : (s.reading settings).outcome with
  | line line => exact (h.readLine.runLine (hline line houtcome)).2
  | interrupted | endOfInput | failed => exact h.readLine

theorem OnLines.leavesInput_of_echo (h : OnLines settings host (fun _ => IsEcho) s)
    (hfed : Fed settings host s) : LeavesInput settings host s := by
  intro t ready line hreaches hread
  induction hreaches with
  | refl s =>
      have hready := hfed.readLine
      rw [hread] at hready
      exact hready.lineLeavesInput_echo (h s ready line (.refl s) hread)
  | @turn s next t turn_eq rest ih =>
      have hnext := hfed.turn fun line houtcome => hfed.readLine.lineLeavesInput_echo
        (h s _ line (.refl s) (houtcome ▸ readLine_eq ..))
      rw [turn_eq] at hnext
      exact ih (h.turn turn_eq) hnext hread

/-- The keys of a line that is recalled, gets one character more and is abandoned. -/
def recallKeys : List Read := (octets "\x1b[Ax\x03").map .octet

/-- Programs of every name, each of which copies its input. -/
def copying : Filters := fun _ => some fun _ input => (input, [], 0)

/-- A host with these programs. -/
def copyingHost : Host := ⟨.ofFilters copying, ⟨0, 1, 2⟩, 1⟩

/-- A recalled line is abandoned between two lines that are run. -/
theorem runOver_of_abandoned_recall :
    (runOver sharing copyingHost bareShell bareMachine (echoKeys ++ recallKeys ++ echoKeys)).2 =
        .finished 0 ∧
      (runOver sharing copyingHost bareShell bareMachine
        (echoKeys ++ recallKeys ++ echoKeys)).1.shell.history.lines = ["echo hi", "echo hi"] := by
  have hturn {s : Session}
      (houtcome : (s.reading sharing).outcome = .line "echo hi" ∨
        (s.reading sharing).outcome = .interrupted)
      (hnext : OnLines sharing copyingHost (fun _ => IsEcho) (s.turn sharing copyingHost).1) :
      OnLines sharing copyingHost (fun _ => IsEcho) s := by
    refine .of_turn (fun line hread => ?_) fun next hturn => ?_
    · obtain hline | hinterrupted := houtcome
      · obtain rfl := ReadOutcome.line.inj (hline.symm.trans hread)
        exact ⟨["hi"], by decide +kernel⟩
      · simp [hinterrupted] at hread
    · rwa [hturn] at hnext
  have hfed : Fed sharing copyingHost
      (begun sharing copyingHost bareShell bareMachine (echoKeys ++ recallKeys ++ echoKeys)) :=
    ((inStep_beginning bareShell (echoKeys ++ recallKeys ++ echoKeys) []
      (fun _ => by decide)).loadHistory none).fed
  have hleaves : LeavesInput sharing copyingHost
      (begun sharing copyingHost bareShell bareMachine (echoKeys ++ recallKeys ++ echoKeys)) :=
    OnLines.leavesInput_of_echo (hturn (.inl (by decide +kernel)) (hturn (.inr (by decide +kernel))
      (hturn (.inl (by decide +kernel)) (.of_nil (by decide +kernel))))) hfed
  have hignores : OnLines sharing copyingHost (LineIgnoresShown sharing copyingHost)
      (begun sharing copyingHost bareShell bareMachine (echoKeys ++ echoKeys)) :=
    onLines_ignoresShown (fun _ => by decide) (fun _ => Programs.ignore_ofFilters copying _) _
  obtain ⟨hending, hshell, -⟩ := runOver_of_abandoned sharing copyingHost bareShell bareMachine
    echoKeys recallKeys echoKeys
    ((begun sharing copyingHost bareShell bareMachine
      (echoKeys ++ recallKeys ++ echoKeys)).turn sharing copyingHost).1
    (fun _ => by decide) hleaves hignores
    (.turn (Prod.ext rfl (by decide +kernel)) (.refl _))
    (by decide +kernel) (by decide +kernel) (by decide +kernel)
    (fun _ => ⟨_, (Stream.empty.write (octets "$ echo hi\n")).write (octets "hi\n"),
      by decide +kernel, rfl, rfl, rfl⟩)
  rw [hending, hshell]
  decide +kernel

end Session

end LineShell
