import LineShell.Proofs.AppendedFile
import LineShell.Proofs.ReachableHistories

/-!
# Every line is appended once

A history that was loaded from a file and is appended to it, and only so, writes each line that
comes in once: the first time that appending succeeds after the line came in. What is appended is
never taken away or written again, whatever else is loaded and however often appending fails.

## Implementation notes

A ledger keeps the lines that came in beside the history, which itself only has a count. That both
agree, and agree with the file, is `Ledger.Balanced`, which every step keeps. Between two operations
anything may happen to the machine and to the current directory, as long as the path leads to the
same contents.
-/

namespace LineShell.History

variable {h loaded : History} {m : Machine} {cwd : WorkingDirectory} {path : String}
  {operation : Operation} {initial : Bytes} {known : List String}

/-- Operations that count no line as written. -/
def Operation.keepsCount : Operation → Bool
  | .add _ | .resetCursor | .previous | .next | .recent _ | .load _ => true
  | .loadInitial _ | .save _ | .appendTo _ => false

/-- Operations that append to a file. -/
def Operation.appends : Operation → Bool
  | .appendTo _ => true
  | _ => false

/-- A history on a machine, with the lines that came in since it was loaded. -/
structure Ledger where
  directory : WorkingDirectory
  machine : Machine
  history : History
  /-- Lines that had come in when appending succeeded for the last time. -/
  written : List String
  /-- Lines that came in later. -/
  pending : List String
  deriving DecidableEq, Repr

namespace Ledger

variable {l first : Ledger}

/-- A ledger after an operation on its history. -/
def perform (l : Ledger) (operation : Operation) : Ledger :=
  let outcome := operation.perform l.directory l.machine l.history
  let entered := l.pending ++ recorded (operation.entered l.directory l.machine)
  if operation.appends && outcome.fault?.isNone then
    ⟨l.directory, outcome.machine, outcome.history, l.written ++ entered, []⟩
  else ⟨l.directory, outcome.machine, outcome.history, l.written, entered⟩

/-- Ledgers that operations lead to when what the file at a path holds is changed by appending the
history and by nobody else. -/
inductive Continues (path : String) (first : Ledger) : Ledger → Prop
  | start : Continues path first first
  | perform {l : Ledger} (hbefore : Continues path first l) (operation : Operation)
      (hallowed : operation.keepsCount = true ∨ operation = .appendTo path) :
      Continues path first (l.perform operation)
  | elsewhere {l : Ledger} (hbefore : Continues path first l) (directory : WorkingDirectory)
      (machine : Machine)
      (hheld : machine.volume.held? directory path = l.machine.volume.held? l.directory path) :
      Continues path first { l with directory := directory, machine := machine }

/-- A ledger that agrees with the file, which held something at first, and with the history, which
had some lines at first. -/
structure Balanced (path : String) (initial : Bytes) (known : List String) (l : Ledger) : Prop where
  held : l.machine.volume.held? l.directory path =
    some (initial ++ l.written.flatMap fun line => octets (line ++ "\n"))
  lines : l.history.lines = known ++ l.written ++ l.pending
  persisted : l.history.persisted = (known ++ l.written).length

end Ledger

/-! ## Operations that leave the file alone -/

theorem persisted_load {volume : Volume} (hload : h.load volume cwd path = .ok loaded) :
    loaded.persisted = h.persisted := by
  rcases load_cases hload with ⟨-, rfl⟩ | rfl
  · rfl
  · exact persisted_addAll ..

/-- Operations that count no line as written write nothing at all. -/
theorem machine_perform (hkeeps : operation.keepsCount = true) :
    (operation.perform cwd m h).machine = m := by
  cases operation with
  | add | resetCursor | previous | next | recent => rfl
  | load other =>
      simp only [Operation.perform]
      cases h.load m.volume cwd other <;> rfl
  | loadInitial | save | appendTo => simp [Operation.keepsCount] at hkeeps

theorem persisted_perform (hkeeps : operation.keepsCount = true) :
    (operation.perform cwd m h).history.persisted = h.persisted := by
  cases operation with
  | add | resetCursor | recent => rfl
  | previous =>
      simp only [Operation.perform, previous?]
      split
      · rfl
      · rename_i n _
        cases h.lines[n]? <;> rfl
  | next =>
      simp only [Operation.perform, next?]
      split <;> rfl
  | load other =>
      simp only [Operation.perform]
      cases hload : h.load m.volume cwd other with
      | ok loaded => exact persisted_load hload
      | error fault => rfl
  | loadInitial | save | appendTo => simp [Operation.keepsCount] at hkeeps

namespace Ledger

variable {l first : Ledger}

/-- The lines that are not counted as written are those that came in since the last append. -/
theorem Balanced.drop_persisted (hbalanced : l.Balanced path initial known) :
    l.history.lines.drop l.history.persisted = l.pending := by
  rw [hbalanced.lines, hbalanced.persisted, List.drop_left]

/-- What an append writes is what came in since the last one. -/
theorem Balanced.perform_appendTo (hbalanced : l.Balanced path initial known) :
    (l.perform (.appendTo path)).Balanced path initial known := by
  rcases appendTo_cases l.history hbalanced.held with ⟨fault, happend⟩ | ⟨after, happend, hheld⟩
  · have hsame : l.perform (.appendTo path) = l := by
      simp [Ledger.perform, Operation.perform, Operation.entered, Operation.appends, happend,
        keepOnFault]
    rw [hsame]
    exact hbalanced
  · have hmoved : l.perform (.appendTo path) =
        ⟨l.directory, after, { l.history with persisted := l.history.lines.length },
          l.written ++ l.pending, []⟩ := by
      simp [Ledger.perform, Operation.perform, Operation.entered, Operation.appends, happend,
        keepOnFault]
    rw [hbalanced.drop_persisted] at hheld
    rw [hmoved]
    constructor
    · simpa only [List.flatMap_append, List.append_assoc] using hheld
    · simpa only [List.append_nil, List.append_assoc] using hbalanced.lines
    · simp only [hbalanced.lines, List.append_assoc]

/-- Operations that count no line as written leave the file as it is; what they bring in is
pending. -/
theorem perform_of_keepsCount (hkeeps : operation.keepsCount = true) :
    l.perform operation =
      ⟨l.directory, l.machine, (operation.perform l.directory l.machine l.history).history,
        l.written, l.pending ++ recorded (operation.entered l.directory l.machine)⟩ := by
  have hmachine : (operation.perform l.directory l.machine l.history).machine = l.machine :=
    machine_perform hkeeps
  have happends : operation.appends = false := by
    cases operation with
    | appendTo => simp [Operation.keepsCount] at hkeeps
    | _ => rfl
  simp [Ledger.perform, happends, hmachine]

theorem Balanced.perform_of_keepsCount (hbalanced : l.Balanced path initial known)
    (hkeeps : operation.keepsCount = true) : (l.perform operation).Balanced path initial known := by
  rw [Ledger.perform_of_keepsCount hkeeps]
  constructor
  · exact hbalanced.held
  · simp only [lines_perform, hbalanced.lines, List.append_assoc]
  · simp only [persisted_perform hkeeps, hbalanced.persisted]

/-- Whatever happens while the file is only appended to, a balanced ledger stays balanced. -/
theorem Continues.balanced (hcontinues : Continues path first l)
    (hfirst : first.Balanced path initial known) : l.Balanced path initial known := by
  induction hcontinues with
  | start => exact hfirst
  | perform _ operation hallowed ih =>
      rcases hallowed with hkeeps | rfl
      · exact ih.perform_of_keepsCount hkeeps
      · exact ih.perform_appendTo
  | elsewhere _ directory machine hheld ih => exact ⟨hheld.trans ih.held, ih.lines, ih.persisted⟩

/-- A ledger of a history that has just been loaded is balanced. -/
theorem balanced_of_loadInitial (hheld : m.volume.held? cwd path = some initial)
    (hload : h.loadInitial m.volume cwd path = .ok loaded) :
    Balanced path initial loaded.lines ⟨cwd, m, loaded, [], []⟩ := by
  obtain ⟨kept, -, rfl⟩ := exists_load_of_loadInitial hload
  constructor
  · simpa using hheld
  · simp
  · simp

end Ledger

/-- A history is loaded from a file or finds none, and from then on the file is appended to and not
changed otherwise. Then the file always holds what it held at first, and behind it, each followed by
a line feed, the lines that came in before the last successful append. These are the lines of the
history behind the loaded ones, in their order, but for the pending ones at the end, and the next
append that succeeds writes the pending ones too. One that fails changes nothing. -/
theorem appended_once (hheld : m.volume.held? cwd path = some initial)
    (hload : h.loadInitial m.volume cwd path = .ok loaded) {l : Ledger}
    (hcontinues : Ledger.Continues path ⟨cwd, m, loaded, [], []⟩ l) :
    l.machine.volume.held? l.directory path =
        some (initial ++ l.written.flatMap fun line => octets (line ++ "\n")) ∧
      l.history.lines = loaded.lines ++ l.written ++ l.pending ∧
      match l.history.appendTo l.machine l.directory path with
      | (after, .ok kept) =>
          kept.lines = l.history.lines ∧
          after.volume.held? l.directory path =
            some (initial ++ (l.written ++ l.pending).flatMap fun line => octets (line ++ "\n"))
      | (after, .error _) => after = l.machine := by
  have hbalanced := hcontinues.balanced (Ledger.balanced_of_loadInitial hheld hload)
  refine ⟨hbalanced.held, hbalanced.lines, ?_⟩
  rcases appendTo_cases l.history hbalanced.held with ⟨fault, happend⟩ | ⟨after, happend, hafter⟩
  · rw [happend]
  · rw [happend]
    refine ⟨rfl, ?_⟩
    rw [hafter, hbalanced.drop_persisted]
    simp only [List.flatMap_append, List.append_assoc]

/-- A machine with a history file of one line, which may be written or not. -/
def keeping (mayWrite : Bool) : Machine :=
  holding "h" (.file (octets "old\n") ⟨true, mayWrite, false, false⟩)

/-- A line came in and appending failed. It is written later, with the line that was loaded in the
meantime. -/
theorem appended_once_after_failure :
    ∃ l, Ledger.Continues "/h" ⟨.root, keeping false, ⟨["old"], 1, 1⟩, [], []⟩ l ∧
      l.written = ["ls", "old"] ∧ l.pending = ["pwd"] ∧
      l.machine.volume.held? l.directory "/h" = some (octets "old\nls\nold\n") := by
  have hfailed : Ledger.Continues "/h" ⟨.root, keeping false, ⟨["old"], 1, 1⟩, [], []⟩ _ :=
    (Ledger.Continues.start.perform (.add "ls") (.inl rfl)).perform (.appendTo "/h") (.inr rfl)
  have hlast := (((hfailed.elsewhere .root (keeping true) (by decide +kernel)).perform
    (.load "/h") (.inl rfl)).perform (.appendTo "/h") (.inr rfl)).perform (.add "pwd") (.inl rfl)
  have hheld : (keeping false).volume.held? .root "/h" = some (octets "old\n") := by
    decide +kernel
  have hload : History.empty.loadInitial (keeping false).volume .root "/h" =
      .ok ⟨["old"], 1, 1⟩ := by
    rfl
  obtain ⟨hafter, -, -⟩ := appended_once hheld hload hlast
  refine ⟨_, hlast, by decide +kernel, by decide +kernel, hafter.trans ?_⟩
  decide +kernel

end LineShell.History
