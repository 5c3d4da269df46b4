import LineShell.Proofs.HistoryAdditions
import LineShell.Proofs.WrittenNumerals

/-!
# What builtins change

A builtin may change two things: `cd` the current directory, `history` the history when an option
names a file. It does so only with status zero. Whatever else is told, and wherever something
cannot be read, written or entered, the shell stays as it is. Only `exit` ends a session, for a
status that it can read.

Of several options of `history` one is carried out: to read a file before to write one, and to write
one before to append to one.

## Implementation notes

`Builtin.Effect` lists what a builtin can leave behind, each time with what it was asked for. It is
shown once for every builtin, and all that is said on single parts of a shell is read off it.
-/

namespace LineShell.Builtin

variable {b : Builtin} {operands : List String} {streams : Streams} {shell changed : Shell}
  {m after : Machine} {flow : Flow} {given : Options.Given}

/-- What a builtin can leave behind, of a shell and a machine. -/
inductive Effect (operands : List String) (shell : Shell) (m : Machine) :
    Builtin → Result → Prop where
  /-- It gives up. -/
  | fails {b : Builtin} (after : Machine) (failure : BuiltinFailure) :
      Effect operands shell m b (after, .error failure)
  /-- It has told something, good or bad. -/
  | tells {b : Builtin} (after : Machine) (code : Int) :
      Effect operands shell m b (after, .ok (shell, .proceed code))
  /-- `exit` can read the status that it is given. -/
  | ends {code : Int} (hstatus : exitStatus operands = .ok code) :
      Effect operands shell m .exit (m, .ok (shell, .exit code))
  /-- `cd` has entered a directory. -/
  | enters (there : WorkingDirectory) :
      Effect operands shell m .cd (m, .ok ({ shell with directory := there }, .proceed 0))
  /-- `history -r` has read a file. -/
  | reads {given : Options.Given} {path : String} {loaded : History}
      (hgiven : historyGrammar.read operands = .given given)
      (hread : given.value? "-r" = some path)
      (hload : shell.history.load m.volume shell.directory path = .ok loaded) :
      Effect operands shell m .history (m, .ok ({ shell with history := loaded }, .proceed 0))
  /-- `history -w` or `history -a` has written a file, and all lines are in a file now. -/
  | writes {given : Options.Given} {path : String} (after : Machine)
      (hgiven : historyGrammar.read operands = .given given)
      (hread : given.value? "-r" = none)
      (hwrite : given.value? "-w" = some path ∨ given.value? "-a" = some path) :
      Effect operands shell m .history
        (after, .ok ({ shell with
          history := { shell.history with persisted := shell.history.lines.length } }, .proceed 0))

theorem effect_answer (row : Nat) (text : String) (code : Int) :
    Effect operands shell m b (answer m row text shell code) := by
  unfold answer
  split
  case h_1 after hprint => exact .tells after code
  case h_2 fault hprint => exact .fails m _

/-- A help text and a report of a fault are told; all else is up to the options. -/
theorem effect_withOptions {g : Options.Grammar} {go : Options.Given → Result}
    (hgo : ∀ given, g.read operands = .given given → Effect operands shell m b (go given)) :
    Effect operands shell m b (withOptions g operands streams shell m go) := by
  unfold withOptions
  split
  case h_1 given hread => exact hgo given hread
  case h_2 text hread => exact effect_answer ..
  case h_3 fault hread => exact effect_answer ..

theorem effect_changeDirectory (target : String) :
    Effect operands shell m .cd (changeDirectory target streams shell m) := by
  unfold changeDirectory
  split
  case h_1 fault hcurrent => exact .fails m _
  case h_2 current hcurrent =>
    split
    case h_1 | h_2 => exact effect_answer ..
    case h_3 path htarget =>
      split
      case h_1 there henter => exact .enters there
      case h_2 fault henter => exact effect_answer ..

theorem effect_keepHistory_load {path : String}
    (hgiven : historyGrammar.read operands = .given given)
    (hread : given.value? "-r" = some path) :
    Effect operands shell m .history
      (keepHistory shell path (m, shell.history.load m.volume shell.directory path)) := by
  cases hload : shell.history.load m.volume shell.directory path with
  | ok loaded => exact .reads hgiven hread hload
  | error fault => exact .fails m _

theorem effect_keepHistory_writeFrom {path : String} (position : Nat) (append : Bool)
    (hgiven : historyGrammar.read operands = .given given)
    (hread : given.value? "-r" = none)
    (hwrite : given.value? "-w" = some path ∨ given.value? "-a" = some path) :
    Effect operands shell m .history
      (keepHistory shell path
        (shell.history.writeFrom m shell.directory path position append)) := by
  rcases hwritten : shell.history.writeFrom m shell.directory path position append with
    ⟨after, fault | kept⟩
  · exact .fails after _
  · rw [History.eq_of_writeFrom hwritten]
    exact .writes after hgiven hread hwrite

theorem effect_showHistory (hgiven : historyGrammar.read operands = .given given) :
    Effect operands shell m .history (showHistory given streams shell m) := by
  unfold showHistory
  cases hread : given.value? "-r" with
  | some path => exact effect_keepHistory_load hgiven hread
  | none =>
      cases hwrite : given.value? "-w" with
      | some path => exact effect_keepHistory_writeFrom 0 false hgiven hread (.inl hwrite)
      | none =>
          cases happend : given.value? "-a" with
          | some path => exact effect_keepHistory_writeFrom _ true hgiven hread (.inr happend)
          | none =>
              dsimp only
              split
              case h_1 => exact .fails m _
              case h_2 | h_3 => exact effect_answer ..

theorem effect_execute (b : Builtin) :
    Effect operands shell m b (b.execute operands streams shell m) := by
  cases b with
  | exit =>
      simp only [execute]
      split
      case h_1 code hstatus => exact .ends hstatus
      case h_2 failure hstatus => exact .fails m failure
  | echo => exact effect_answer ..
  | type => exact effect_withOptions fun given _ => effect_answer ..
  | pwd =>
      refine effect_withOptions fun given _ => ?_
      split
      case h_1 path hcurrent => exact effect_answer ..
      case h_2 fault hcurrent => exact .fails m _
  | cd => exact effect_withOptions fun given _ => effect_changeDirectory _
  | history => exact effect_withOptions fun given hgiven => effect_showHistory hgiven

/-- Nothing but the report of a failure comes on top of what a builtin does. -/
theorem effect_run (hrun : run b operands streams shell m = (after, changed, flow)) :
    Effect operands shell m b (after, .ok (changed, flow)) := by
  have hexecute := @effect_execute operands streams shell m b
  unfold run at hrun
  split at hrun
  case h_1 done shown ended heq =>
    obtain ⟨rfl, rfl, rfl⟩ : done = after ∧ shown = changed ∧ ended = flow := by simpa using hrun
    rwa [heq] at hexecute
  case h_2 done failure heq =>
    obtain ⟨rfl, rfl, rfl⟩ : _ = after ∧ shell = changed ∧ .proceed 1 = flow := by simpa using hrun
    exact .tells _ 1

/-- The statuses that `exit` can be asked for: zero by nothing, or a signed number of 32 bits. -/
def AsksFor (operands : List String) (code : Int) : Prop :=
  (operands = [] ∧ code = 0) ∨
    ∃ text, operands = [text] ∧ Numeral.Writes text code ∧ Numeral.Range.signed32.Has code

theorem exitStatus_eq_ok_iff {code : Int} :
    exitStatus operands = .ok code ↔ AsksFor operands code := by
  match operands with
  | [] => simp [exitStatus, AsksFor, eq_comm]
  | [text] =>
    have hstatus : exitStatus [text] = .ok code ↔ Numeral.read .signed32 text = .ok code := by
      simp only [exitStatus]
      split
      case h_1 value hread => rw [hread, Except.ok.injEq, Except.ok.injEq]
      case h_2 fault hread => simp [hread]
    rw [hstatus, Numeral.read_eq_ok_iff (by decide) (by decide)]
    simp [AsksFor]
  | _ :: _ :: _ => simp [exitStatus, AsksFor]

theorem run_exit {code : Int} (hasks : AsksFor operands code) :
    run .exit operands streams shell m = (m, shell, .exit code) := by
  simp only [run, execute, exitStatus_eq_ok_iff.mpr hasks]

namespace Effect

variable {code : Int}

theorem eq_of_nonzero (h : Effect operands shell m b (after, .ok (changed, .proceed code)))
    (hcode : code ≠ 0) : changed = shell := by
  cases h with
  | tells => rfl
  | enters | reads | writes => exact absurd rfl hcode

theorem enters_of_directory_ne (h : Effect operands shell m b (after, .ok (changed, flow)))
    (hne : changed.directory ≠ shell.directory) :
    b = .cd ∧ flow = .proceed 0 ∧ changed = { shell with directory := changed.directory } := by
  cases h with
  | enters there => exact ⟨rfl, rfl, rfl⟩
  | tells | ends | reads | writes => exact absurd rfl hne

theorem history_of_history_ne (h : Effect operands shell m b (after, .ok (changed, flow)))
    (hne : changed.history ≠ shell.history) :
    b = .history ∧ flow = .proceed 0 ∧ changed = { shell with history := changed.history } ∧
      ∃ given path, historyGrammar.read operands = .given given ∧
        ((given.value? "-r" = some path ∧
            shell.history.load m.volume shell.directory path = .ok changed.history) ∨
          (given.value? "-r" = none ∧
            (given.value? "-w" = some path ∨ given.value? "-a" = some path) ∧
            changed.history =
              { shell.history with persisted := changed.history.persisted })) := by
  cases h with
  | reads hgiven hread hload => exact ⟨rfl, rfl, rfl, _, _, hgiven, .inl ⟨hread, hload⟩⟩
  | writes after hgiven hread hwrite =>
      exact ⟨rfl, rfl, rfl, _, _, hgiven, .inr ⟨hread, hwrite, rfl⟩⟩
  | tells | ends | enters => exact absurd rfl hne

theorem of_exit (h : Effect operands shell m b (after, .ok (changed, .exit code))) :
    b = .exit ∧ AsksFor operands code ∧ after = m ∧ changed = shell := by
  cases h with
  | ends hstatus => exact ⟨rfl, exitStatus_eq_ok_iff.mp hstatus, rfl, rfl⟩

end Effect

/-- Builtins change their own state only, and only on success. With another status than zero the
shell is as it was. If the current directory changed, `cd` ended with zero, and if the history
changed, `history` did, with an option that names a file: `-r` loads the file, and `-w` and `-a`
without `-r` change nothing but the count of lines in a file. Only `exit` ends the session, with the
statuses that it can be asked for, and then nothing at all has changed. -/
theorem changes_own_state_only (hrun : run b operands streams shell m = (after, changed, flow)) :
    (∀ code, code ≠ 0 → flow = .proceed code → changed = shell) ∧
    (changed.directory ≠ shell.directory →
      b = .cd ∧ flow = .proceed 0 ∧ changed = { shell with directory := changed.directory }) ∧
    (changed.history ≠ shell.history →
      b = .history ∧ flow = .proceed 0 ∧ changed = { shell with history := changed.history } ∧
      ∃ given path, historyGrammar.read operands = .given given ∧
        ((given.value? "-r" = some path ∧
            shell.history.load m.volume shell.directory path = .ok changed.history) ∨
          (given.value? "-r" = none ∧
            (given.value? "-w" = some path ∨ given.value? "-a" = some path) ∧
            changed.history =
              { shell.history with persisted := changed.history.persisted }))) ∧
    (∀ code, flow = .exit code ↔ b = .exit ∧ AsksFor operands code) ∧
    (∀ code, flow = .exit code → after = m ∧ changed = shell) := by
  have heffect := effect_run hrun
  refine ⟨?_, heffect.enters_of_directory_ne, heffect.history_of_history_ne, ?_, ?_⟩
  · rintro code hcode rfl
    exact heffect.eq_of_nonzero hcode
  · intro code
    constructor
    · rintro rfl
      obtain ⟨hb, hasks, -⟩ := heffect.of_exit
      exact ⟨hb, hasks⟩
    · rintro ⟨rfl, hasks⟩
      rw [run_exit hasks] at hrun
      exact (Prod.mk.inj (Prod.mk.inj hrun).2).2.symm
  · rintro code rfl
    obtain ⟨-, -, hsame⟩ := heffect.of_exit
    exact hsame

/-- A machine with the file `/log`, which holds one line, and the standard streams. -/
def withLog : Machine :=
  ⟨Volume.empty.create [.text "log"] (.file (octets "pwd\n") .ofNewFile),
    [.tape [] 0, .stream .empty, .stream .empty], none, [], 1⟩

/-- A shell with a line that no file holds yet, which is being recalled. -/
def noting : Shell := ⟨.empty, .empty, .root, ⟨["ls"], 0, 0⟩⟩

/-- The line is written behind the one that the file holds, and is recalled as before. -/
theorem changes_own_state_only_of_append :
    ∃ after, run .history ["-a", "log"] ⟨0, 1, 2⟩ noting withLog =
        (after, { noting with history := ⟨["ls"], 0, 1⟩ }, .proceed 0) ∧
      ∃ given path, historyGrammar.read ["-a", "log"] = .given given ∧
        ((given.value? "-r" = some path ∧
            noting.history.load withLog.volume .root path = .ok ⟨["ls"], 0, 1⟩) ∨
          (given.value? "-r" = none ∧
            (given.value? "-w" = some path ∨ given.value? "-a" = some path) ∧
            (⟨["ls"], 0, 1⟩ : History) = { noting.history with persisted := 1 })) := by
  have hrun : run .history ["-a", "log"] ⟨0, 1, 2⟩ noting withLog =
      (_, { noting with history := ⟨["ls"], 0, 1⟩ }, .proceed 0) := rfl
  obtain ⟨-, -, hhistory, -⟩ := changes_own_state_only hrun
  obtain ⟨-, -, -, hgiven⟩ := hhistory (by decide)
  exact ⟨_, hrun, hgiven⟩

/-- With `-r` beside it, `-w` is not carried out, and a line is added. -/
theorem not_forall_only_count_changes :
    ¬ ∀ (operands : List String) (given : Options.Given) (streams : Streams) (shell : Shell)
      (m : Machine), historyGrammar.read operands = .given given →
      given.value? "-w" ≠ none ∨ given.value? "-a" ≠ none →
      (run .history operands streams shell m).2.1.history =
        { shell.history with
          persisted := (run .history operands streams shell m).2.1.history.persisted } := by
  intro h
  have hsame := h ["-r", "log", "-w", "copy"] ⟨[("-r", "log"), ("-w", "copy")], [], []⟩
    ⟨0, 1, 2⟩ noting withLog (by decide) (by decide)
  revert hsame
  decide +kernel

end LineShell.Builtin
