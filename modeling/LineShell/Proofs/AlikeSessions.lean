import LineShell.Proofs.SessionRounds
import LineShell.Proofs.UnreadInput

/-!
# Sessions that differ in their inputs only

Of two sessions that differ in nothing but the keys that are left, a line that is read in both of
them makes them do the same, as long as commands leave the input alone. So a turn keeps them alike
when the same is read in it, and what they leave behind is the same.

## Implementation notes

If the input is shared with commands, a file on it (`withTape`) is all of the machine in which two
alike sessions (`Session.Alike`) may differ. This file holds the keys that the shell has not read
(`Session.Fed`), so nothing is reclaimed from commands that do not read. A shell that does not share
its input has no such file, and its machine is the same.
-/

namespace LineShell

namespace Editor

variable {editor : Editor}

/-- What is left after a line was read is the end of the input. -/
theorem rest_edit_suffix (s : LineState) (shown : String) (input : List Read) :
    (editor.edit s shown input).rest <:+ input := by
  induction input generalizing s shown with
  | nil => exact List.suffix_rfl
  | cons read rest ih =>
      have hrest := List.suffix_cons read rest
      cases read with
      | interrupted => exact (ih s shown).trans hrest
      | failed fault => exact hrest
      | octet value =>
          simp only [edit]
          cases editor.press s value with
          | goOn next more => exact (ih next (shown ++ more)).trans hrest
          | done outcome more => exact hrest

end Editor

namespace Session

variable {settings : Settings} {host : Host} {s t : Session} {m : Machine} {contents : Bytes}
  {offset : Nat} {line : String}

/-- A machine with a file on the input of the shell, if commands can read it. -/
def withTape (settings : Settings) (host : Host) (contents : Bytes) (offset : Nat) (m : Machine) :
    Machine :=
  if settings.standardStreams then m.setChannel host.streams.input (.tape contents offset) else m

@[simp] theorem volume_withTape : (withTape settings host contents offset m).volume = m.volume := by
  simp only [withTape]
  split <;> rfl

@[simp] theorem terminal_withTape :
    (withTape settings host contents offset m).terminal = m.terminal := by
  simp only [withTape]
  split <;> rfl

@[simp] theorem fatal?_withTape :
    fatal? settings host (withTape settings host contents offset m) = fatal? settings host m := by
  simp only [withTape]
  split <;> rfl

@[simp] theorem withTape_withTape (next : Bytes) (start : Nat) :
    withTape settings host next start (withTape settings host contents offset m) =
      withTape settings host next start m := by
  simp only [withTape]
  split
  · exact Machine.setChannel_setChannel ..
  · rfl

/-- The input of a machine is a file that holds so many octets at least, if commands can read it. -/
def Holding (settings : Settings) (host : Host) (m : Machine) (count : Nat) : Prop :=
  settings.standardStreams = true → ∃ contents offset,
    m.channel? host.streams.input = some (.tape contents offset) ∧ count ≤ contents.length

theorem Holding.printOrSkip_withTape {count : Nat} (h : Holding settings host m count) (row : Nat)
    (text : String) :
    (withTape settings host contents offset m).printOrSkip row text =
      withTape settings host contents offset (m.printOrSkip row text) := by
  simp only [withTape]
  split
  · rename_i hshared
    obtain ⟨_, _, hrow, -⟩ := h hshared
    exact Machine.printOrSkip_setChannel_tape hrow ..
  · rfl

theorem Holding.printOrSkip {count : Nat} (h : Holding settings host m count) (row : Nat)
    (text : String) : Holding settings host (m.printOrSkip row text) count := by
  intro hshared
  obtain ⟨contents, offset, hrow, hle⟩ := h hshared
  exact ⟨contents, offset, Machine.channel?_printOrSkip_tape hrow text, hle⟩

theorem Holding.mono {count less : Nat} (h : Holding settings host m count) (hle : less ≤ count) :
    Holding settings host m less := by
  intro hshared
  obtain ⟨contents, offset, hrow, hcount⟩ := h hshared
  exact ⟨contents, offset, hrow, Nat.le_trans hle hcount⟩

/-- The file on the input holds the keys that are left, if commands can read it. -/
def Fed (settings : Settings) (host : Host) (s : Session) : Prop :=
  Holding settings host s.machine (delivered s.input).length

/-- Sessions that differ in their inputs only. -/
structure Alike (settings : Settings) (host : Host) (s t : Session) : Prop where
  shell : t.shell = s.shell
  shown : t.shown = s.shown
  modes : t.modes = s.modes
  machine : ∃ contents offset, t.machine = withTape settings host contents offset s.machine

/-- Where commands have an input of their own, alike sessions have the same machine. -/
theorem Alike.machine_eq (h : Alike settings host s t) (hown : settings.standardStreams = false) :
    t.machine = s.machine := by
  obtain ⟨contents, offset, hmachine⟩ := h.machine
  rw [hmachine, withTape, hown]
  rfl

/-- Alike sessions whose files hold the keys that are left. -/
structure InStep (settings : Settings) (host : Host) (s t : Session) : Prop
    extends Alike settings host s t where
  fed : Fed settings host s
  other : Fed settings host t

/-! ## Reading a line -/

/-- What the editor reads for a session. -/
def reading (settings : Settings) (s : Session) : LineRead :=
  (s.editor settings).readLine s.shell.history s.input

theorem rest_reading_suffix (settings : Settings) (s : Session) :
    (s.reading settings).rest <:+ s.input :=
  Editor.rest_edit_suffix ..

theorem readLine_eq (settings : Settings) (host : Host) (s : Session) :
    s.readLine settings host =
      ({ shell := { s.shell with history := (s.reading settings).history }
         machine :=
          if settings.standardStreams then
            s.machine.printOrSkip host.streams.output (s.reading settings).shown
          else s.machine
         input := (s.reading settings).rest
         shown := s.shown ++ (s.reading settings).shown
         modes := s.modes ++ (readingMode settings s.machine).toList },
        (s.reading settings).outcome) := rfl

theorem Alike.editor_eq (h : Alike settings host s t) : t.editor settings = s.editor settings := by
  obtain ⟨contents, offset, hmachine⟩ := h.machine
  simp only [Session.editor, h.shell, hmachine, volume_withTape]

theorem Alike.reading_eq (h : Alike settings host s t) (hinput : t.input = s.input) :
    t.reading settings = s.reading settings := by
  rw [reading, h.editor_eq, h.shell, hinput, reading]

/-- A session that has shown some text more, with a history and what is left of the input. -/
def showing (settings : Settings) (host : Host) (history : History) (text : String)
    (rest : List Read) (s : Session) : Session where
  shell := { s.shell with history := history }
  machine :=
    if settings.standardStreams then s.machine.printOrSkip host.streams.output text else s.machine
  input := rest
  shown := s.shown ++ text
  modes := s.modes ++ (readingMode settings s.machine).toList

theorem readLine_eq_showing (settings : Settings) (host : Host) (s : Session) :
    (s.readLine settings host).1 = s.showing settings host (s.reading settings).history
      (s.reading settings).shown (s.reading settings).rest := rfl

/-- Showing some text takes nothing off the file on the input. -/
theorem Fed.showing {rest : List Read} (h : Fed settings host s) (hrest : rest <:+ s.input)
    (history : History) (text : String) :
    Fed settings host (s.showing settings host history text rest) := by
  have hless : (delivered rest).length ≤ (delivered s.input).length :=
    (hrest.sublist.filterMap _).length_le
  simp only [Fed, Session.showing]
  split
  · exact (h.mono hless).printOrSkip _ _
  · exact h.mono hless

/-- Sessions that show the same stay alike, whatever is left of their inputs. -/
theorem InStep.showing {rest left : List Read} (h : InStep settings host s t)
    (hrest : rest <:+ s.input) (hleft : left <:+ t.input) (history : History) (text : String) :
    InStep settings host (s.showing settings host history text rest)
      (t.showing settings host history text left) := by
  obtain ⟨contents, offset, hmachine⟩ := h.machine
  refine ⟨?_, h.fed.showing hrest history text, h.other.showing hleft history text⟩
  simp only [Session.showing, h.shell, h.shown, h.modes, hmachine]
  refine ⟨rfl, rfl, ?_, contents, offset, ?_⟩
  · simp only [readingMode, terminal_withTape]
  · split
    · exact h.fed.printOrSkip_withTape ..
    · rfl

theorem Fed.readLine (h : Fed settings host s) : Fed settings host (s.readLine settings host).1 :=
  h.showing (rest_reading_suffix ..) _ _

/-- Sessions of which the same is read stay alike. -/
theorem InStep.readLine (h : InStep settings host s t)
    (hshown : (t.reading settings).shown = (s.reading settings).shown)
    (hhistory : (t.reading settings).history = (s.reading settings).history) :
    InStep settings host (s.readLine settings host).1 (t.readLine settings host).1 := by
  rw [readLine_eq_showing, readLine_eq_showing, hshown, hhistory]
  exact h.showing (rest_reading_suffix ..) (rest_reading_suffix ..) _ _

/-! ## Running a line -/

/-- What commands are lent is a file that holds the keys that are left. -/
theorem Fed.lend_eq (h : Fed settings host s) :
    ∃ contents, (delivered s.input).length ≤ contents.length ∧
      s.lend settings host = withTape settings host contents
        (contents.length - (delivered s.input).length) s.machine := by
  cases hshared : settings.standardStreams with
  | false => exact ⟨delivered s.input, Nat.le_refl _, by simp [lend, withTape, hshared]⟩
  | true =>
      obtain ⟨contents, offset, hrow, hle⟩ := h hshared
      exact ⟨contents, hle, by simp [lend, withTape, hshared, inputChannel, hrow]⟩

theorem InStep.lend (h : InStep settings host s t) :
    ∃ contents offset, t.lend settings host =
      withTape settings host contents offset (s.lend settings host) := by
  obtain ⟨_, _, hmachine⟩ := h.machine
  obtain ⟨first, -, hfirst⟩ := h.fed.lend_eq
  obtain ⟨second, -, hsecond⟩ := h.other.lend_eq
  refine ⟨second, second.length - (delivered t.input).length, ?_⟩
  rw [hsecond, hmachine, hfirst]
  simp only [withTape_withTape]

/-- The commands on a line leave the input alone, if they can read it. -/
def LineLeavesInput (settings : Settings) (host : Host) (s : Session) (line : String) : Prop :=
  settings.standardStreams = true →
    Execution.LeavesInput host (s.recording line) (s.lend settings host) line

/-- What the commands on a line do. -/
def executed (settings : Settings) (host : Host) (s : Session) (line : String) :
    Machine × Shell × Except ShellError Flow :=
  Execution.runLine host (s.recording line) (s.lend settings host) line

/-- What a session becomes of what commands do. -/
def settle (settings : Settings) (host : Host) (s : Session)
    (done : Machine × Shell × Except ShellError Flow) : Session × Option SessionEnd :=
  let after := s.afterRun settings host done.2.1 done.1
  match fatal? settings host done.1 with
  | some signal => (after, some (.killed signal))
  | none =>
    match done.2.2 with
    | .ok (.exit code) => (after, some (.finished code))
    | .ok (.proceed _) => (after, none)
    | .error e =>
      ({ after with
          machine := done.1.printOrSkip host.streams.error (Execution.errorLine e) }, none)

theorem runLine_eq_settle (settings : Settings) (host : Host) (s : Session) (line : String) :
    s.runLine settings host line = s.settle settings host (s.executed settings host line) := rfl

/-- Commands that leave the input alone leave the keys on it that they were lent. -/
theorem Fed.reclaim_eq (h : Fed settings host s)
    (hkept : settings.standardStreams = true →
      m.channel? host.streams.input = (s.lend settings host).channel? host.streams.input) :
    reclaim settings host s.input m = s.input ∧
      Holding settings host m (delivered s.input).length := by
  simp only [reclaim]
  split
  case isFalse hown => exact ⟨rfl, fun hshared => absurd hshared hown⟩
  case isTrue hshared =>
    obtain ⟨contents, hle, hlend⟩ := h.lend_eq
    obtain ⟨_, _, hrow, -⟩ := h hshared
    have hleft : m.channel? host.streams.input =
        some (.tape contents (contents.length - (delivered s.input).length)) := by
      rw [hkept hshared, hlend, withTape, if_pos hshared, Machine.channel?_setChannel_self, hrow]
      rfl
    refine ⟨?_, fun _ => ⟨contents, _, hleft, hle⟩⟩
    have hunread : (m.unread host.streams.input).1.length = (delivered s.input).length := by
      simp only [Machine.unread, hleft, List.length_drop]
      omega
    rw [hunread, Nat.sub_self, dropOctets]

theorem machine_settle (settings : Settings) (host : Host) (s : Session)
    (done : Machine × Shell × Except ShellError Flow) :
    (s.settle settings host done).1.machine = done.1 ∨ ∃ text,
      (s.settle settings host done).1.machine = done.1.printOrSkip host.streams.error text := by
  simp only [settle]
  split
  · exact .inl rfl
  · split
    · exact .inl rfl
    · exact .inl rfl
    · exact .inr ⟨_, rfl⟩

theorem input_settle (s : Session) (done : Machine × Shell × Except ShellError Flow) :
    (s.settle settings host done).1.input = reclaim settings host s.input done.1 := by
  simp only [settle]
  split
  · rfl
  · split <;> rfl

/-- Running a line takes nothing off the input if its commands leave the input alone. -/
theorem Fed.runLine (h : Fed settings host s) (hleaves : LineLeavesInput settings host s line) :
    (s.runLine settings host line).1.input = s.input ∧
      Fed settings host (s.runLine settings host line).1 := by
  obtain ⟨hinput, hholding⟩ := h.reclaim_eq (m := (s.executed settings host line).1)
    fun hshared => (hleaves hshared).kept
  rw [runLine_eq_settle, Fed, input_settle, hinput]
  refine ⟨rfl, ?_⟩
  obtain hmachine | ⟨text, hmachine⟩ :=
    machine_settle settings host s (s.executed settings host line)
  · rwa [hmachine]
  · rw [hmachine]
    exact hholding.printOrSkip _ _

theorem InStep.lineLeavesInput (h : InStep settings host s t)
    (hleaves : LineLeavesInput settings host s line) : LineLeavesInput settings host t line := by
  intro hshared
  obtain ⟨contents, offset, hlend⟩ := h.lend
  rw [recording, h.shell, hlend, withTape, if_pos hshared]
  exact (hleaves hshared).setChannel contents offset

theorem InStep.executed_eq (h : InStep settings host s t)
    (hleaves : LineLeavesInput settings host s line) :
    ∃ contents offset, t.executed settings host line =
      (withTape settings host contents offset (s.executed settings host line).1,
        (s.executed settings host line).2) := by
  obtain ⟨contents, offset, hlend⟩ := h.lend
  refine ⟨contents, offset, ?_⟩
  simp only [executed, recording, h.shell, hlend, withTape]
  split
  · rename_i hshared
    exact (hleaves hshared).same contents offset
  · rfl

/-- Sessions stay alike when commands do the same in them. -/
theorem Alike.settle (h : Alike settings host s t) {count : Nat}
    {done : Machine × Shell × Except ShellError Flow}
    (hholding : Holding settings host done.1 count) (contents : Bytes) (offset : Nat) :
    (t.settle settings host (withTape settings host contents offset done.1, done.2)).2 =
        (s.settle settings host done).2 ∧
      Alike settings host (s.settle settings host done).1
        (t.settle settings host (withTape settings host contents offset done.1, done.2)).1 := by
  simp only [Session.settle, fatal?_withTape]
  split
  · exact ⟨rfl, rfl, h.shown, h.modes, contents, offset, rfl⟩
  · split
    · exact ⟨rfl, rfl, h.shown, h.modes, contents, offset, rfl⟩
    · exact ⟨rfl, rfl, h.shown, h.modes, contents, offset, rfl⟩
    · exact ⟨rfl, rfl, h.shown, h.modes, contents, offset, hholding.printOrSkip_withTape ..⟩

/-- Sessions stay alike when a line is run in them whose commands leave the input alone. -/
theorem InStep.runLine (h : InStep settings host s t)
    (hleaves : LineLeavesInput settings host s line) :
    (t.runLine settings host line).2 = (s.runLine settings host line).2 ∧
      InStep settings host (s.runLine settings host line).1 (t.runLine settings host line).1 := by
  obtain ⟨contents, offset, hexecuted⟩ := h.executed_eq hleaves
  obtain ⟨-, hholding⟩ := h.fed.reclaim_eq (m := (s.executed settings host line).1)
    fun hshared => (hleaves hshared).kept
  obtain ⟨hending, halike⟩ := h.toAlike.settle hholding contents offset
  rw [← hexecuted] at hending halike
  exact ⟨hending, halike, (h.fed.runLine hleaves).2,
    (h.other.runLine (h.lineLeavesInput hleaves)).2⟩

end Session

end LineShell
