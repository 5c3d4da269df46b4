import LineShell.Execution

/-!
# What commands add to the history

Of all that a command line can do, only `history -r` on its own adds lines to the history of the
shell. Everything else leaves the lines as they are: the other builtins, the other uses of
`history`, programs, pipelines, and whatever fails.

## Implementation notes

`readBack` tells which lines that are: for a builtin, and from this for a pipeline. `Builtin.Adds`
says of the result of a builtin that it adds some lines; a failed builtin adds none, so there must
be none to add.
-/

namespace LineShell

namespace History

/-- The lines that are recorded, among some. -/
def recorded (lines : List String) : List String := lines.filter fun line => !isBlank line

@[simp] theorem recorded_nil : recorded [] = [] := rfl

@[simp] theorem recorded_append (a b : List String) :
    recorded (a ++ b) = recorded a ++ recorded b :=
  List.filter_append ..

theorem lines_add (h : History) (line : String) : (h.add line).lines = h.lines ++ recorded [line] :=
  rfl

/-- The records of the file at a path; there are none if it cannot be read. -/
def recordsAt (volume : Volume) (cwd : WorkingDirectory) (path : String) : List String :=
  match volume.readText cwd path with
  | .ok text => records text
  | .error _ => []

variable {h loaded : History} {volume : Volume} {cwd : WorkingDirectory} {path : String}

/-- Loading adds the records of the file, and does nothing at all if there are none. -/
theorem load_cases (hload : h.load volume cwd path = .ok loaded) :
    (recordsAt volume cwd path = [] ∧ loaded = h) ∨
      loaded = h.addAll (recordsAt volume cwd path) := by
  simp only [load] at hload
  simp only [recordsAt]
  split at hload
  case h_1 text hread =>
    obtain rfl := Except.ok.inj hload
    simp only [hread]
    split
    · rename_i hnone
      exact .inl ⟨List.isEmpty_iff.mp hnone, rfl⟩
    · exact .inr rfl
  case h_2 e hread =>
    rw [hread]
    split at hload
    · exact .inl ⟨rfl, (Except.ok.inj hload).symm⟩
    · simp at hload
  case h_3 => simp at hload

theorem lines_load (hload : h.load volume cwd path = .ok loaded) :
    loaded.lines = h.lines ++ recorded (recordsAt volume cwd path) := by
  rcases load_cases hload with ⟨hnone, rfl⟩ | rfl
  · rw [hnone, recorded_nil, List.append_nil]
  · rfl

/-- Nothing is read from a file that cannot be loaded. -/
theorem recordsAt_of_load_error {fault : FileFault}
    (hload : h.load volume cwd path = .error fault) : recordsAt volume cwd path = [] := by
  simp only [load] at hload
  simp only [recordsAt]
  split at hload
  · simp at hload
  · rename_i hread
    rw [hread]
  · rename_i hread
    rw [hread]

/-- Writing to a file leaves the history as it was, but for the count of lines in the file. -/
theorem eq_of_writeFrom {kept : History} {m after : Machine} {position : Nat} {append : Bool}
    (hwrite : h.writeFrom m cwd path position append = (after, .ok kept)) :
    kept = { h with persisted := h.lines.length } := by
  simp only [writeFrom] at hwrite
  split at hwrite
  · simp at hwrite
  · split at hwrite
    · simp at hwrite
    · exact (Except.ok.inj (Prod.mk.inj hwrite).2).symm

theorem lines_writeFrom {kept : History} {m after : Machine} {position : Nat} {append : Bool}
    (hwrite : h.writeFrom m cwd path position append = (after, .ok kept)) :
    kept.lines = h.lines := by
  rw [eq_of_writeFrom hwrite]

end History

namespace Builtin

variable {shell : Shell} {lines operands : List String} {streams : Streams} {m : Machine}

/-- A result that adds lines to the history of a shell. -/
def Adds (shell : Shell) (lines : List String) (result : Result) : Prop :=
  match result.2 with
  | .ok (changed, _) => changed.history.lines = shell.history.lines ++ History.recorded lines
  | .error _ => lines = []

/-- A shell with the same history has nothing added. -/
theorem adds_nil {after : Machine} {changed : Shell} {flow : Flow}
    (h : changed.history.lines = shell.history.lines) :
    Adds shell [] (after, .ok (changed, flow)) :=
  h.trans (List.append_nil _).symm

theorem adds_answer (row : Nat) (text : String) (code : Int) :
    Adds shell [] (answer m row text shell code) := by
  simp only [answer]
  split
  · exact adds_nil rfl
  · rfl

/-- Options decide what is added; without them only a message is shown. -/
theorem adds_withOptions {g : Options.Grammar} {go : Options.Given → Result}
    (hgiven : ∀ given, g.read operands = .given given → Adds shell lines (go given))
    (hnone : (∀ given, g.read operands ≠ .given given) → lines = []) :
    Adds shell lines (withOptions g operands streams shell m go) := by
  simp only [withOptions]
  split
  case h_1 given hread => exact hgiven given hread
  case h_2 text hread =>
    rw [hnone fun given => by simp [hread]]
    exact adds_answer ..
  case h_3 fault hread =>
    rw [hnone fun given => by simp [hread]]
    exact adds_answer ..

theorem adds_changeDirectory (target : String) :
    Adds shell [] (changeDirectory target streams shell m) := by
  simp only [changeDirectory]
  split
  · rfl
  · split
    · exact adds_answer ..
    · exact adds_answer ..
    · split
      · exact adds_nil rfl
      · exact adds_answer ..

/-- The lines that `history` reads from a file with these options. -/
def readBackGiven (given : Options.Given) (shell : Shell) (m : Machine) : List String :=
  match given.value? "-r" with
  | some path => History.recordsAt m.volume shell.directory path
  | none => []

theorem adds_keepHistory_load (path : String) :
    Adds shell (History.recordsAt m.volume shell.directory path)
      (keepHistory shell path (m, shell.history.load m.volume shell.directory path)) := by
  cases hload : shell.history.load m.volume shell.directory path with
  | error fault => exact History.recordsAt_of_load_error hload
  | ok loaded => exact History.lines_load hload

theorem adds_keepHistory_writeFrom (path : String) (position : Nat) (append : Bool) :
    Adds shell [] (keepHistory shell path
      (shell.history.writeFrom m shell.directory path position append)) := by
  rcases hwrite : shell.history.writeFrom m shell.directory path position append with
    ⟨after, fault | kept⟩
  · rfl
  · exact adds_nil (History.lines_writeFrom hwrite)

theorem adds_showHistory (given : Options.Given) :
    Adds shell (readBackGiven given shell m) (showHistory given streams shell m) := by
  simp only [showHistory, readBackGiven]
  cases given.value? "-r" with
  | some path => exact adds_keepHistory_load path
  | none =>
      cases given.value? "-w" with
      | some path => exact adds_keepHistory_writeFrom ..
      | none =>
          cases given.value? "-a" with
          | some path => exact adds_keepHistory_writeFrom ..
          | none =>
              dsimp only
              split
              · rfl
              · exact adds_answer ..
              · exact adds_answer ..

/-- The lines that a builtin reads from a file into the history. -/
def readBack (b : Builtin) (operands : List String) (shell : Shell) (m : Machine) : List String :=
  match b, historyGrammar.read operands with
  | .history, .given given => readBackGiven given shell m
  | _, _ => []

theorem adds_execute (b : Builtin) :
    Adds shell (b.readBack operands shell m) (b.execute operands streams shell m) := by
  cases b with
  | exit =>
      simp only [execute]
      split
      · exact adds_nil rfl
      · rfl
  | echo => exact adds_answer ..
  | type => exact adds_withOptions (fun given _ => adds_answer ..) fun _ => rfl
  | pwd =>
      refine adds_withOptions (fun given _ => ?_) fun _ => rfl
      split
      · exact adds_answer ..
      · rfl
  | cd => exact adds_withOptions (fun given _ => adds_changeDirectory _) fun _ => rfl
  | history =>
      refine adds_withOptions ?_ ?_
      · intro given hread
        simp only [readBack, hread]
        exact adds_showHistory given
      · intro hnone
        simp only [readBack]
        split
        · rename_i given _ hread
          exact absurd hread (hnone given)
        · rfl

/-- A builtin adds to the history what it reads from a file, and nothing else. -/
theorem lines_run (b : Builtin) :
    (b.run operands streams shell m).2.1.history.lines =
      shell.history.lines ++ History.recorded (b.readBack operands shell m) := by
  have hadds := @adds_execute shell operands streams m b
  simp only [run]
  split
  case h_1 after changed flow hexecute =>
    rw [hexecute] at hadds
    exact hadds
  case h_2 after failure hexecute =>
    rw [hexecute] at hadds
    rw [show b.readBack operands shell m = [] from hadds, History.recorded_nil, List.append_nil]

end Builtin

namespace Execution

/-- The lines that a pipeline reads from a file into the history of the shell: only a builtin on its
own does, when its redirects are open. -/
def readBack (shell : Shell) (m : Machine) : List Command → List String
  | [command] =>
    match Redirection.openAll m shell.directory command.redirects,
        Builtin.ofName? command.program with
    | (opened, .ok _), some b => b.readBack command.operands shell opened
    | _, _ => []
  | _ => []

variable {host : Host} {shell : Shell} {m : Machine}

theorem lines_single (command : Command) :
    (single host shell m command).2.1.history.lines =
      shell.history.lines ++ History.recorded (readBack shell m [command]) := by
  simp only [single, readBack]
  split
  case h_1 opened e hredirects => simp [hredirects]
  case h_2 opened redirection hredirects =>
    rw [hredirects]
    split
    case h_1 b hbuiltin =>
      rw [hbuiltin]
      exact Builtin.lines_run b
    case h_2 hexternal =>
      rw [hexternal, History.recorded_nil, List.append_nil]
      split
      · rfl
      · split <;> rfl

/-- A pipeline adds to the history what it reads from a file, and nothing else. -/
theorem lines_execute (commands : List Command) :
    (execute host shell m commands).2.1.history.lines =
      shell.history.lines ++ History.recorded (readBack shell m commands) := by
  match commands with
  | [] => simp [execute, pipeline, readBack]
  | [command] => exact lines_single command
  | first :: second :: rest => simp [execute, pipeline, readBack]

end Execution

end LineShell
