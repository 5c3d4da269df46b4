import LineShell.Proofs.BrokenStreams
import LineShell.Proofs.KeptRows

/-!
# What builtins write to their output

`Builtin.outputText` is the text that a builtin has for its output, as a function of the operands,
the shell and the machine. A builtin that runs with a pipe for its output writes this text into it
and nothing else.
-/

namespace LineShell

/-- What a pipe gets of what is written to the output: all of it or nothing. -/
def Streams.share (streams : Streams) (pipe : Nat) (written : Bytes) : Bytes :=
  if streams.output = pipe then written else []

namespace Streams

variable {streams : Streams} {pipe : Nat}

@[simp] theorem share_nil : streams.share pipe [] = [] := by
  simp [share]

end Streams

namespace Machine

variable {m : Machine} {streams : Streams} {pipe : Nat}

theorem passes_output (m : Machine) (streams : Streams) (pipe : Nat) (written : Bytes) :
    Passes pipe m (streams.share pipe written) (m.writeOrSkip streams.output written) := by
  by_cases houtput : streams.output = pipe
  · simp only [Streams.share, houtput, if_true]
    exact passes_writeOrSkip pipe m written
  · simp only [Streams.share, houtput, if_false]
    exact (keepsRow_writeOrSkip (Ne.symm houtput) written).passes

theorem passes_error (herror : streams.error ≠ pipe) (written : Bytes) :
    Passes pipe m [] (m.writeOrSkip streams.error written) :=
  (keepsRow_writeOrSkip (Ne.symm herror) written).passes

end Machine

namespace Builtin

/-- What is said after options: the text that they ask for, or the help text. -/
def givenText (g : Options.Grammar) (operands : List String) (text : Options.Given → String) :
    String :=
  match g.read operands with
  | .given given => text given
  | .help text => text
  | .faulty _ => ""

/-- What `type` says of names. -/
def typeText (names : List String) (shell : Shell) (m : Machine) : String :=
  String.join ((names.map (describeName m shell)).map (·.1))

/-- What `pwd` says. -/
def directoryText (shell : Shell) (m : Machine) : String :=
  match m.volume.pathOfDirectory shell.directory with
  | .ok path => Utf8.lossy path ++ "\n"
  | .error _ => ""

/-- What `cd` says on its output: only why there is no directory to go to. -/
def changeText (target : String) (shell : Shell) (m : Machine) : String :=
  match m.volume.pathOfDirectory shell.directory with
  | .error _ => ""
  | .ok current =>
    match cdTarget target current shell.environment.home with
    | .homeNotSet => "cd: " ++ target ++ ": $HOME not set\n"
    | .unsupported => "cd: " ++ target ++ ": unsupported path\n"
    | .directory _ => ""

/-- What `history` says: nothing when it works on a file. -/
def listing (given : Options.Given) (shell : Shell) : String :=
  match given.value? "-r", given.value? "-w", given.value? "-a" with
  | none, none, none =>
    match given.operand?.map (Numeral.read .unsigned64) with
    | some (.ok 0) => ""
    | some (.ok count) => String.join ((shell.history.recent count.toNat).map historyLine)
    | _ => String.join ((shell.history.recent 0).map historyLine)
  | _, _, _ => ""

/-- What a builtin says on its output. -/
def outputText (b : Builtin) (operands : List String) (shell : Shell) (m : Machine) : String :=
  match b with
  | .exit => ""
  | .echo => joined " " operands ++ "\n"
  | .type => givenText typeGrammar operands fun given => typeText given.operands shell m
  | .pwd => givenText pwdGrammar operands fun _ => directoryText shell m
  | .cd => givenText cdGrammar operands fun given =>
      changeText (given.operand?.getD "~") shell m
  | .history => givenText historyGrammar operands fun given => listing given shell

variable {shell : Shell} {operands : List String} {streams : Streams} {m : Machine} {pipe : Nat}

/-- The result of a builtin that leaves some text in a pipe, if the pipe is its output. -/
def Tells (streams : Streams) (pipe : Nat) (m : Machine) (text : String) (result : Result) : Prop :=
  Machine.Passes pipe m (streams.share pipe (octets text)) result.1

theorem tells_nothing (outcome : Except BuiltinFailure (Shell × Flow)) :
    Tells streams pipe m "" (m, outcome) := by
  have hkept := (Machine.KeepsRow.refl pipe m).passes
  simpa [Tells, octets] using hkept

theorem answer_fst (m : Machine) (row : Nat) (text : String) (shell : Shell) (code : Int) :
    (answer m row text shell code).1 = m.writeOrSkip row (octets text) := by
  simp only [answer, Machine.print, Machine.writeOrSkip]
  split <;> simp_all

theorem tells_answer (text : String) (code : Int) :
    Tells streams pipe m text (answer m streams.output text shell code) := by
  rw [Tells, answer_fst]
  exact Machine.passes_output ..

theorem tells_report (herror : streams.error ≠ pipe) (text : String) (code : Int) :
    Tells streams pipe m "" (answer m streams.error text shell code) := by
  rw [Tells, answer_fst]
  simpa [octets] using Machine.passes_error herror (octets text)

theorem tells_withOptions (herror : streams.error ≠ pipe) {g : Options.Grammar}
    {text : Options.Given → String} {go : Options.Given → Result}
    (hgiven : ∀ given, Tells streams pipe m (text given) (go given)) :
    Tells streams pipe m (givenText g operands text)
      (withOptions g operands streams shell m go) := by
  simp only [withOptions, givenText]
  cases g.read operands with
  | given given => exact hgiven given
  | help text => exact tells_answer ..
  | faulty fault => exact tells_report herror ..

theorem tells_changeDirectory (herror : streams.error ≠ pipe) (target : String) :
    Tells streams pipe m (changeText target shell m) (changeDirectory target streams shell m) := by
  simp only [changeDirectory, changeText]
  cases m.volume.pathOfDirectory shell.directory with
  | error fault => exact tells_nothing _
  | ok current =>
      dsimp only
      cases cdTarget target current shell.environment.home with
      | homeNotSet => exact tells_answer ..
      | unsupported => exact tells_answer ..
      | directory path =>
          dsimp only
          split
          · exact tells_nothing _
          · exact tells_report herror ..

/-- Writing a history file keeps every row. -/
theorem keepsRow_writeFrom (h : History) (cwd : WorkingDirectory) (path : String) (position : Nat)
    (append : Bool) (row : Nat) :
    Machine.KeepsRow row m (h.writeFrom m cwd path position append).1 := by
  simp only [History.writeFrom]
  split
  · exact .refl row m
  · rename_i opened new hopen
    obtain ⟨rfl, -⟩ := Machine.openFile_eq hopen
    split
    · exact (Machine.keepsRow_openFile row hopen).closeFrom (Nat.le_refl _)
    · rename_i written hwrite
      have hkept {other : Nat} (hne : other ≠ m.channels.length) :
          Machine.KeepsRow other m (written.closeFrom m.channels.length) :=
        ((Machine.keepsRow_openFile other hopen).trans
          (Machine.keepsRow_write hne hwrite)).closeFrom (Nat.le_refl _)
      by_cases hrow : row = m.channels.length
      · -- The row is new and dropped again: only that no row is lost is left to show.
        constructor
        · exact (hkept (Nat.succ_ne_self _)).length_le
        · intro hlt
          exact absurd hrow (Nat.ne_of_lt hlt)
      · exact hkept hrow

theorem tells_keepHistory {kept : Machine × Except FileFault History}
    (hkept : Machine.KeepsRow pipe m kept.1) (path : String) :
    Tells streams pipe m "" (keepHistory shell path kept) := by
  have hpasses : Tells streams pipe m "" (kept.1, .error .countNotPositive) := by
    simpa [Tells, octets] using hkept.passes
  obtain ⟨after, fault | history⟩ := kept
  · exact hpasses
  · exact hpasses

theorem tells_showHistory (given : Options.Given) :
    Tells streams pipe m (listing given shell) (showHistory given streams shell m) := by
  simp only [showHistory, listing]
  cases given.value? "-r" with
  | some path => exact tells_keepHistory (.refl pipe m) path
  | none =>
      cases given.value? "-w" with
      | some path => exact tells_keepHistory (keepsRow_writeFrom ..) path
      | none =>
          cases given.value? "-a" with
          | some path => exact tells_keepHistory (keepsRow_writeFrom ..) path
          | none =>
              dsimp only
              rcases given.operand?.map (Numeral.read .unsigned64) with _ | _ | count
              · exact tells_answer ..
              · exact tells_answer ..
              · by_cases hcount : count = 0
                · subst hcount
                  exact tells_nothing _
                · -- The text and the result choose the same case, for a count that is not zero.
                  simp only
                  exact tells_answer ..

theorem tells_execute (b : Builtin) (herror : streams.error ≠ pipe) :
    Tells streams pipe m (b.outputText operands shell m) (b.execute operands streams shell m) := by
  cases b with
  | exit =>
      simp only [execute, outputText]
      split
      · exact tells_nothing _
      · exact tells_nothing _
  | echo => exact tells_answer ..
  | type => exact tells_withOptions herror fun given => tells_answer ..
  | pwd =>
      refine tells_withOptions herror fun given => ?_
      simp only [directoryText]
      cases m.volume.pathOfDirectory shell.directory with
      | ok path => exact tells_answer ..
      | error fault => exact tells_nothing _
  | cd => exact tells_withOptions herror fun given => tells_changeDirectory herror _
  | history => exact tells_withOptions herror fun given => tells_showHistory given

/-- A builtin that is a process leaves in a pipe what it says, if the pipe is its output. -/
theorem passes_runBuiltin (b : Builtin) (operands : List String) (shell : Shell) (m : Machine)
    (herror : streams.error ≠ pipe) :
    Machine.Passes pipe m (streams.share pipe (octets (b.outputText operands shell m)))
      (Execution.runBuiltin b shell operands streams m).1 := by
  have htells := @tells_execute shell operands streams m pipe b herror
  simp only [Execution.runBuiltin]
  split
  case h_1 after changed flow hexecute =>
    rw [hexecute] at htells
    exact htells
  case h_2 after failure hexecute =>
    rw [hexecute] at htells
    split
    · exact htells
    · rw [Machine.endWith_fst]
      exact Machine.Passes.then_keeps htells (Machine.keepsRow_writeOrSkip (Ne.symm herror) _)

end Builtin

end LineShell
