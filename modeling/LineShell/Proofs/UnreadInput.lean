import LineShell.Execution
import LineShell.Proofs.KeptRows

/-!
# Input that commands leave alone

A shell that reads its keys from the standard input lends this input to its commands, as a file that
goes on where the shell stopped reading. Nothing that the shell does itself depends on what is in
this file: it prints to other channels, and saves the history to a new one. Commands that leave the
input alone do the same whatever is on it, too.

## Implementation notes

Nothing can be printed to a file that is open for reading, so the rows that are printed to need not
differ from the row of the input.
-/

namespace LineShell

namespace Machine

variable {m : Machine} {row other : Nat} {channel : Channel}

theorem channel?_setChannel_of_ne (hne : row ≠ other) :
    (m.setChannel row channel).channel? other = m.channel? other := by
  simp [setChannel, channel?, List.getElem?_set_ne hne]

theorem channel?_setChannel_self (m : Machine) (row : Nat) (channel : Channel) :
    (m.setChannel row channel).channel? row = (m.channel? row).map fun _ => channel := by
  simp only [setChannel, channel?, List.getElem?_set_self']
  cases m.channels[row]? <;> rfl

theorem setChannel_setChannel (m : Machine) (row : Nat) (channel next : Channel) :
    (m.setChannel row channel).setChannel row next = m.setChannel row next := by
  simp only [setChannel, List.set_set]

@[simp] theorem length_channels_setChannel (m : Machine) (row : Nat) (channel : Channel) :
    (m.setChannel row channel).channels.length = m.channels.length := List.length_set

theorem setChannel_comm (hne : row ≠ other) (channel next : Channel) :
    (m.setChannel row channel).setChannel other next =
      (m.setChannel other next).setChannel row channel := by
  simp only [setChannel, List.set_comm _ _ hne]

theorem contentsOf_setChannel (m : Machine) (row : Nat) (channel : Channel) (place : Location)
    (serial : Nat) :
    (m.setChannel row channel).contentsOf place serial = m.contentsOf place serial :=
  rfl

/-- What is written to another row does not depend on the channel in a row. -/
theorem write_setChannel_of_ne (hne : row ≠ other) (channel : Channel) (written : Bytes) :
    (m.setChannel row channel).write other written =
      (m.write other written).map (·.setChannel row channel) := by
  simp only [write, channel?_setChannel_of_ne hne]
  split
  any_goals rfl
  split
  · rfl
  · split
    any_goals rfl
    · split
      · rfl
      · simp only [Except.map, setChannel_comm hne]
    · simp only [contentsOf_setChannel]
      split
      · simp only [Except.map, setChannel_comm hne]
        rfl
      · rfl

/-- Nothing can be written to a file that is open for reading, whatever it holds. -/
theorem write_setChannel_tape {contents : Bytes} {offset : Nat}
    (hrow : m.channel? row = some (.tape contents offset)) (next : Bytes) (start : Nat)
    (written : Bytes) :
    (m.setChannel row (.tape next start)).write other written =
      (m.write other written).map (·.setChannel row (.tape next start)) := by
  by_cases hne : row = other
  · subst hne
    have hset : (m.setChannel row (.tape next start)).channel? row = some (.tape next start) := by
      rw [channel?_setChannel_self, hrow]
      rfl
    simp only [write, hrow, hset, Except.map]
  · exact write_setChannel_of_ne hne _ _

theorem channel?_closeFrom {first : Nat} (hrow : row < first) :
    (m.closeFrom first).channel? row = m.channel? row := by
  simp [closeFrom, channel?, hrow]

theorem closeFrom_setChannel (m : Machine) (row : Nat) (channel : Channel) (first : Nat) :
    (m.setChannel row channel).closeFrom first = (m.closeFrom first).setChannel row channel := by
  simp only [setChannel, closeFrom, List.take_set]

theorem printOrSkip_setChannel_tape {contents : Bytes} {offset : Nat}
    (hrow : m.channel? row = some (.tape contents offset)) (next : Bytes) (start : Nat)
    (text : String) :
    (m.setChannel row (.tape next start)).printOrSkip other text =
      (m.printOrSkip other text).setChannel row (.tape next start) := by
  simp only [printOrSkip, print, write_setChannel_tape hrow]
  cases m.write other (octets text) <;> rfl

/-- Printing leaves a file alone that is open for reading. -/
theorem channel?_printOrSkip_tape {contents : Bytes} {offset : Nat}
    (hrow : m.channel? row = some (.tape contents offset)) (text : String) :
    (m.printOrSkip other text).channel? row = some (.tape contents offset) := by
  by_cases hne : row = other
  · subst hne
    simp [printOrSkip, print, write, hrow]
  · rw [← hrow]
    exact (keepsRow_writeOrSkip hne (octets text)).channel?_eq (List.getElem?_eq_some_iff.mp hrow).1

/-- Writing changes channels and files and nothing else. -/
theorem exists_eq_of_write {after : Machine} {written : Bytes}
    (hwrite : m.write row written = .ok after) :
    ∃ channels volume, after = { m with channels := channels, volume := volume } := by
  simp only [write] at hwrite
  split at hwrite
  any_goals simp at hwrite
  split at hwrite
  · exact ⟨_, _, (Except.ok.inj hwrite).symm⟩
  · split at hwrite
    · split at hwrite
      · simp at hwrite
      · exact ⟨_, _, (Except.ok.inj hwrite).symm⟩
    · simp at hwrite
    · simp at hwrite
    · split at hwrite <;> exact ⟨_, _, (Except.ok.inj hwrite).symm⟩
    · exact ⟨_, _, (Except.ok.inj hwrite).symm⟩

theorem signals_printOrSkip (m : Machine) (row : Nat) (text : String) :
    (m.printOrSkip row text).signals = m.signals := by
  simp only [printOrSkip, print]
  split
  · rename_i hwrite
    obtain ⟨_, _, rfl⟩ := exists_eq_of_write hwrite
    rfl
  · rfl

theorem openFile_setChannel (hrow : row < m.channels.length) (channel : Channel)
    (cwd : WorkingDirectory) (path : String) (append : Bool) :
    (m.setChannel row channel).openFile cwd path append =
      (m.openFile cwd path append).map fun opened =>
        (opened.1.setChannel row channel, opened.2) := by
  simp only [openFile]
  rw [show (m.setChannel row channel).volume = m.volume from rfl]
  split <;> simp [Except.map, addChannel, setChannel, List.set_append_left _ _ hrow]

end Machine

namespace History

variable {m : Machine} {row : Nat}

/-- Saving the history does not depend on a channel that is there already. -/
theorem save_setChannel (hrow : row < m.channels.length) (channel : Channel) (h : History)
    (cwd : WorkingDirectory) (path : String) :
    h.save (m.setChannel row channel) cwd path =
      ((h.save m cwd path).1.setChannel row channel, (h.save m cwd path).2) := by
  simp only [save, writeFrom, Machine.openFile_setChannel hrow]
  cases hopen : m.openFile cwd path false with
  | error fault => rfl
  | ok opened =>
      obtain ⟨opened, new⟩ := opened
      obtain ⟨rfl, -⟩ := Machine.openFile_eq hopen
      simp only [Except.map, Machine.print, Machine.write_setChannel_of_ne (Nat.ne_of_lt hrow)]
      cases opened.write m.channels.length (octets (fileText (h.lines.drop 0))) <;>
        simp only [Machine.closeFrom_setChannel]

end History

namespace Execution

variable {host : Host} {shell : Shell} {m : Machine} {line : String} {operands : List String}

/-- The commands on a line leave the input of the shell alone: they do the same whatever file is on
it, and do not read from it. -/
structure LeavesInput (host : Host) (shell : Shell) (m : Machine) (line : String) : Prop where
  same : ∀ contents offset,
    runLine host shell (m.setChannel host.streams.input (.tape contents offset)) line =
      ((runLine host shell m line).1.setChannel host.streams.input (.tape contents offset),
        (runLine host shell m line).2)
  kept : (runLine host shell m line).1.channel? host.streams.input =
    m.channel? host.streams.input

/-- Whether the input is left alone does not depend on what is on it. -/
theorem LeavesInput.setChannel (h : LeavesInput host shell m line) (contents : Bytes)
    (offset : Nat) :
    LeavesInput host shell (m.setChannel host.streams.input (.tape contents offset)) line where
  same next start := by
    rw [h.same, Machine.setChannel_setChannel, h.same, Machine.setChannel_setChannel]
  kept := by
    rw [h.same, Machine.channel?_setChannel_self, Machine.channel?_setChannel_self, h.kept]

theorem runLine_echo (hparse : parseLine line = [⟨"echo", operands, []⟩]) :
    runLine host shell m line =
      match m.print host.streams.output (joined " " operands ++ "\n") with
      | .ok after => (after.closeFrom m.channels.length, shell, .ok (.proceed 0))
      | .error fault =>
        ((m.printOrSkip host.streams.error
          ((BuiltinFailure.stream fault).message ++ "\n")).closeFrom m.channels.length, shell,
          .ok (.proceed 1)) := by
  have hname : Builtin.ofName? "echo" = some .echo := by decide
  simp only [runLine, hparse, execute, pipeline, single, Redirection.openAll,
    Redirection.openFrom, hname, Builtin.run, Builtin.execute, Builtin.answer,
    Redirection.apply, Redirection.none, Option.getD_none]
  cases m.print host.streams.output (joined " " operands ++ "\n") <;> rfl

/-- The command `echo` leaves the input alone. -/
theorem leavesInput_echo {contents : Bytes} {offset : Nat}
    (hparse : parseLine line = [⟨"echo", operands, []⟩])
    (hrow : m.channel? host.streams.input = some (.tape contents offset)) :
    LeavesInput host shell m line := by
  have hlt : host.streams.input < m.channels.length := (List.getElem?_eq_some_iff.mp hrow).1
  constructor
  · intro next start
    rw [runLine_echo hparse, runLine_echo hparse]
    simp only [Machine.print, Machine.write_setChannel_tape hrow]
    cases m.write host.streams.output (octets (joined " " operands ++ "\n")) with
    | ok after =>
        simp only [Except.map, Machine.closeFrom_setChannel, Machine.length_channels_setChannel]
    | error fault =>
        simp only [Except.map, Machine.printOrSkip_setChannel_tape hrow,
          Machine.closeFrom_setChannel, Machine.length_channels_setChannel]
  · rw [runLine_echo hparse, hrow]
    cases hprint : m.print host.streams.output (joined " " operands ++ "\n") with
    | ok after =>
        have hafter : m.printOrSkip host.streams.output (joined " " operands ++ "\n") = after := by
          rw [Machine.printOrSkip, hprint]
        rw [← hafter]
        exact (Machine.channel?_closeFrom hlt).trans (Machine.channel?_printOrSkip_tape hrow _)
    | error fault =>
        exact (Machine.channel?_closeFrom hlt).trans (Machine.channel?_printOrSkip_tape hrow _)

end Execution

end LineShell
