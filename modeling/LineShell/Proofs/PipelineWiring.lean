import LineShell.Proofs.StageCourses

/-!
# How the stages of a pipeline are wired

On a machine whose programs are filters, the stages of a pipeline take their courses one after the
other. The first one reads the input of the shell, and every other one exactly what the stage before
it passes on. All stages run, whatever becomes of one of them.

## Implementation notes

`Wired` strings together the courses of the stages without a word on how a stage is run. It leaves
open how patient a stage was in the end: a stage whose reader wanted more is run again from the
machine it started on, so only its last course counts.
-/

namespace LineShell.Execution

/-- The row of the pipe that is opened behind the next stage. -/
def Turn.pipe (turn : Turn) : Nat := turn.machine.channels.length

/-- The machine with the pipe behind the next stage, which has some patience. -/
def Turn.withPipe (turn : Turn) (patience : Nat) : Machine :=
  ({ turn.machine with patience := patience }.addChannel (.stream .pipe)).1

/-- The turn of the stage behind a pipe, when the stage before it left some machine. -/
def Turn.following (turn : Turn) (after : Machine) : Turn :=
  let left := (after.closeFrom (turn.pipe + 1)).cutIfStarved turn.input turn.pipe
  ⟨turn.process + 1, turn.pipe, { left with patience := turn.machine.patience }⟩

/-- The stages take their courses from some turn on, where the next stage receives some octets. -/
inductive Wired (filters : Filters) (host : Host) (shell : Shell) :
    List Command → Turn → Bytes → Machine × List Ending → Prop
  | last {command : Command} {turn : Turn} {received sent : Bytes} {after : Machine}
      {ending : Ending}
      (reads : standardInput shell command turn.input turn.machine = received)
      (course : Course filters host shell command { host.streams with input := turn.input }
        turn.process turn.machine received sent (after, ending)) :
      Wired filters host shell [command] turn received (after, [ending])
  | next {command next : Command} {rest : List Command} {turn : Turn} {received sent : Bytes}
      {after final : Machine} {ending : Ending} {endings : List Ending} (patience : Nat)
      (reads : standardInput shell command turn.input (turn.withPipe patience) = received)
      (course : Course filters host shell command ⟨turn.input, turn.pipe, host.streams.error⟩
        turn.process (turn.withPipe patience) received sent (after, ending))
      (tail : Wired filters host shell (next :: rest) (turn.following after)
        (command.passesOn sent) (final, endings)) :
      Wired filters host shell (command :: next :: rest) turn received
        (final.reopenIfBlocked turn.machine turn.input turn.pipe, ending :: endings)

/-- The input of the next stage and the error stream of the shell are in the table. -/
structure Turn.IsReady (turn : Turn) (host : Host) : Prop where
  input_lt : turn.input < turn.machine.channels.length
  error_lt : host.streams.error < turn.machine.channels.length

variable {filters : Filters} {host : Host} {shell : Shell} {command : Command} {turn : Turn}
  {received sent waiting : Bytes}

namespace Turn

theorem holds_withPipe (turn : Turn) (patience : Nat) :
    (turn.withPipe patience).Holds turn.pipe [] :=
  Machine.holds_addChannel_pipe { turn.machine with patience := patience }

theorem keepsRow_withPipe (turn : Turn) (patience row : Nat) :
    Machine.KeepsRow row turn.machine (turn.withPipe patience) := by
  have hadded := Machine.keepsRow_addChannel row { turn.machine with patience := patience }
    (.stream .pipe)
  exact ⟨hadded.length_le, hadded.channel?_eq⟩

/-- What a stage passes on waits for the next one. -/
theorem waits_following {patience : Nat} {left : Machine × Ending} (hready : turn.IsReady host)
    (hcourse : Course filters host shell command ⟨turn.input, turn.pipe, host.streams.error⟩
      turn.process (turn.withPipe patience) received sent left) :
    (turn.following left.1).machine.Waits turn.pipe (command.passesOn sent) := by
  have hempty := turn.holds_withPipe patience
  have hpasses := hcourse.passes hempty.waits.lt_length (Nat.ne_of_lt hready.input_lt) rfl
    (Nat.ne_of_lt hready.error_lt)
  have hleft := (hpasses.holds [] hempty).waits
  rw [List.nil_append] at hleft
  exact (hleft.closeFrom (Nat.lt_succ_self _)).cutIfStarved turn.input

theorem isReady_following {patience : Nat} {left : Machine × Ending} (hready : turn.IsReady host)
    (hcourse : Course filters host shell command ⟨turn.input, turn.pipe, host.streams.error⟩
      turn.process (turn.withPipe patience) received sent left) :
    (turn.following left.1).IsReady host := by
  have hinput := (waits_following hready hcourse).lt_length
  exact ⟨hinput, Nat.lt_trans hready.error_lt hinput⟩

end Turn

/-- A stage receives what waits for it. -/
theorem standardInput_of_waits {m : Machine} {input : Nat} (hwaits : m.Waits input waiting) :
    standardInput shell command input m = waiting := by
  have hkeeps := Redirection.keepsRow_openAll hwaits.lt_length shell.directory command.redirects
  simp only [standardInput]
  rw [(hwaits.of_keepsRow hkeeps).unread_eq]

/-- All stages run, each of them on what the one before it passes on. -/
theorem exists_wired (hfilters : host.programs = .ofFilters filters) {commands : List Command}
    (hne : commands ≠ []) (hready : turn.IsReady host) :
    ∃ received, Wired filters host shell commands turn received
        (stages host shell turn.process turn.input commands turn.machine) ∧
      ∀ waiting, turn.machine.Waits turn.input waiting → received = waiting := by
  induction commands generalizing turn with
  | nil => exact absurd rfl hne
  | cons command rest ih =>
      cases rest with
      | nil =>
          obtain ⟨sent, hcourse⟩ := exists_course hfilters shell command
            { host.streams with input := turn.input } turn.process turn.machine
          refine ⟨_, .last rfl hcourse, ?_⟩
          intro waiting hwaits
          exact standardInput_of_waits hwaits
      | cons next rest =>
          simp only [stages]
          obtain ⟨patience, hpatience⟩ := Machine.exists_patiently_eq _ _ _ turn.machine
          rw [hpatience]
          obtain ⟨sent, hcourse⟩ := exists_course hfilters shell command
            ⟨turn.input, turn.pipe, host.streams.error⟩ turn.process (turn.withPipe patience)
          obtain ⟨passed, htail, hpassed⟩ := ih (List.cons_ne_nil next rest)
            (Turn.isReady_following hready hcourse)
          obtain rfl := hpassed _ (Turn.waits_following hready hcourse)
          refine ⟨_, .next patience rfl hcourse htail, ?_⟩
          intro waiting hwaits
          apply standardInput_of_waits
          exact hwaits.of_keepsRow (turn.keepsRow_withPipe patience turn.input)

/-- On a machine whose programs are filters, a pipeline of two or more commands is wired from the
input of the shell on. -/
theorem wired_of_execute (hfilters : host.programs = .ofFilters filters) (shell : Shell)
    (m : Machine) (first second : Command) (rest : List Command)
    (hinput : host.streams.input < m.channels.length)
    (herror : host.streams.error < m.channels.length) :
    ∃ received after endings,
      Wired filters host shell (first :: second :: rest)
        ⟨host.process + 1, host.streams.input, m⟩ received (after, endings) ∧
      execute host shell m (first :: second :: rest) =
        (after.closeFrom m.channels.length, shell, (waitForAll endings).map .proceed) := by
  have hready : Turn.IsReady ⟨host.process + 1, host.streams.input, m⟩ host := ⟨hinput, herror⟩
  obtain ⟨received, hwired, -⟩ :=
    exists_wired hfilters (List.cons_ne_nil first (second :: rest)) hready
  exact ⟨received, _, _, hwired, rfl⟩

/-- A program that writes its input backwards gets what `echo` wrote, although its error stream goes
to a file, and its output is that of the shell. -/
theorem wired_of_execute_of_reversed_echo :
    ∃ received after endings,
      Wired (fun _ => some fun _ input => (input.reverse, [], 0))
        ⟨.ofFilters fun _ => some fun _ input => (input.reverse, [], 0), ⟨0, 1, 2⟩, 1⟩
        ⟨.empty, .empty, ⟨[]⟩, ⟨[], 0, 0⟩⟩
        [⟨"echo", ["hi"], []⟩, ⟨"/rev", [], [⟨.error, "/log", false⟩]⟩]
        ⟨2, 0, ⟨⟨[([], ⟨0, .newDirectory⟩), ([.text "rev"], ⟨1, .program "rev"⟩)], 2⟩,
          [.tape [] 0, .stream .empty, .stream .empty], none, [], 1⟩⟩ received (after, endings) ∧
      (after.closeFrom 3).unread 1 = (octets "\nih", []) := by
  have houtput : (execute
      ⟨.ofFilters fun _ => some fun _ input => (input.reverse, [], 0), ⟨0, 1, 2⟩, 1⟩
      ⟨.empty, .empty, ⟨[]⟩, ⟨[], 0, 0⟩⟩
      ⟨⟨[([], ⟨0, .newDirectory⟩), ([.text "rev"], ⟨1, .program "rev"⟩)], 2⟩,
        [.tape [] 0, .stream .empty, .stream .empty], none, [], 1⟩
      [⟨"echo", ["hi"], []⟩, ⟨"/rev", [], [⟨.error, "/log", false⟩]⟩]).1.unread 1 =
      (octets "\nih", []) := by
    decide +kernel
  obtain ⟨received, after, endings, hwired, hexecute⟩ :=
    @wired_of_execute (fun _ => some fun _ input => (input.reverse, [], 0))
      ⟨.ofFilters fun _ => some fun _ input => (input.reverse, [], 0), ⟨0, 1, 2⟩, 1⟩ rfl
      ⟨.empty, .empty, ⟨[]⟩, ⟨[], 0, 0⟩⟩
      ⟨⟨[([], ⟨0, .newDirectory⟩), ([.text "rev"], ⟨1, .program "rev"⟩)], 2⟩,
        [.tape [] 0, .stream .empty, .stream .empty], none, [], 1⟩
      ⟨"echo", ["hi"], []⟩ ⟨"/rev", [], [⟨.error, "/log", false⟩]⟩ [] (by decide) (by decide)
  rw [hexecute] at houtput
  exact ⟨received, after, endings, hwired, houtput⟩

end LineShell.Execution
