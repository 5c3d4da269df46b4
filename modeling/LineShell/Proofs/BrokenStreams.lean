import LineShell.Execution
import LineShell.Proofs.PathOctets

/-!
# Writing what nobody reads

Nobody reads a broken stream, or a named pipe whose readers have left. Within the shell a write to
one is refused, and reported like any other refusal. A process ends there: what it would say is
lost, and its ending tells of the signal.
-/

namespace LineShell

/-- Nobody reads what is written to a channel. -/
def Channel.isUnread : Channel → Bool
  | .stream s => s.isBroken
  | .device .abandoned => true
  | _ => false

namespace Machine

variable {m : Machine} {row : Nat} {text : String}

theorem write_eq_brokenPipe_iff {written : Bytes} :
    m.write row written = .error (.refused .brokenPipe) ↔
      (m.channel? row).any (·.isUnread) = true ∧ written ≠ [] := by
  have hdescriptor : Errno.badDescriptor ≠ .brokenPipe := by decide
  have hspace : Errno.noSpace ≠ .brokenPipe := by decide
  by_cases hempty : written = []
  · simp only [write, hempty, List.isEmpty_nil, if_true, ne_eq, not_true_eq_false, and_false,
      iff_false]
    split <;> simp [hdescriptor]
  · cases hchannel : m.channel? row with
    | none => simp [write, hchannel, hdescriptor]
    | some channel =>
        cases channel with
        | stream s =>
            cases hbroken : s.isBroken <;>
              simp [write, hchannel, hempty, hbroken, Channel.isUnread]
        | device device =>
            cases device <;> simp [write, hchannel, hempty, hspace, Channel.isUnread]
        | file place serial access offset =>
            cases access <;> simp [write, hchannel, hempty, hdescriptor, Channel.isUnread] <;>
              split <;> simp
        | tape | directory | closed =>
            simp [write, hchannel, hdescriptor, Channel.isUnread]

/-- Something is to be said on a channel, and nobody would read it. -/
def IsUnread (m : Machine) (row : Nat) (text : String) : Prop :=
  (m.channel? row).any (·.isUnread) = true ∧ text ≠ ""

instance : Decidable (m.IsUnread row text) := inferInstanceAs (Decidable (_ ∧ _))

theorem print_eq_brokenPipe_iff :
    m.print row text = .error (.refused .brokenPipe) ↔ m.IsUnread row text := by
  rw [print, write_eq_brokenPipe_iff, Ne, octets_eq_nil_iff, IsUnread]

/-- The last words of a process that nobody would read are lost, and a signal ends it. -/
theorem endWith_of_isUnread (h : m.IsUnread row text) (ending : Ending) :
    m.endWith row text ending = (m, .killed brokenPipeSignal) := by
  simp only [endWith, print_eq_brokenPipe_iff.mpr h, if_true]

/-- A process says its last words as it can, and ends as it is about to. -/
theorem endWith_of_not_isUnread (h : ¬m.IsUnread row text) (ending : Ending) :
    m.endWith row text ending = (m.printOrSkip row text, ending) := by
  simp only [endWith, printOrSkip]
  cases hprint : m.print row text with
  | ok after => rfl
  | error fault =>
      have hother : fault ≠ .refused .brokenPipe := by
        rintro rfl
        exact h (print_eq_brokenPipe_iff.mp hprint)
      simp only [if_neg hother]

/-- What nobody reads leaves no trace. -/
theorem printOrSkip_of_isUnread (h : m.IsUnread row text) : m.printOrSkip row text = m := by
  simp only [printOrSkip, print_eq_brokenPipe_iff.mpr h]

@[simp] theorem endWith_fst (m : Machine) (row : Nat) (text : String) (ending : Ending) :
    (m.endWith row text ending).1 = m.printOrSkip row text := by
  by_cases h : m.IsUnread row text
  · rw [endWith_of_isUnread h, printOrSkip_of_isUnread h]
  · rw [endWith_of_not_isUnread h]

end Machine

namespace Builtin

variable {b : Builtin} {operands : List String} {shell : Shell} {streams : Streams} {m : Machine}

/-- A builtin writes what nobody reads, or reports a failure to nobody. -/
inductive IsUnread (b : Builtin) (operands : List String) (streams : Streams) (shell : Shell)
    (m : Machine) : Prop
  | output {after : Machine} {failure : BuiltinFailure}
      (gaveUp : b.execute operands streams shell m = (after, .error failure))
      (unread : failure.isUnread = true) : IsUnread b operands streams shell m
  | report {after : Machine} {failure : BuiltinFailure}
      (gaveUp : b.execute operands streams shell m = (after, .error failure))
      (unread : after.IsUnread streams.error (failure.message ++ "\n")) :
      IsUnread b operands streams shell m

theorem not_isUnread_of_execute {after : Machine} {kept : Shell × Flow}
    (h : b.execute operands streams shell m = (after, .ok kept)) :
    ¬b.IsUnread operands streams shell m := by
  intro hunread
  cases hunread with
  | output hgaveUp => simp [h] at hgaveUp
  | report hgaveUp => simp [h] at hgaveUp

/-- A builtin that is a process ends when nobody reads what it writes. Within the shell it has
status one then, and reports the failure. -/
theorem exists_failure_of_isUnread (h : b.IsUnread operands streams shell m) :
    ∃ (after : Machine) (failure : BuiltinFailure),
      Execution.runBuiltin b shell operands streams m = (after, .killed brokenPipeSignal) ∧
      b.run operands streams shell m =
        (after.printOrSkip streams.error (failure.message ++ "\n"), shell, .proceed 1) := by
  cases h with
  | @output after failure hgaveUp hunread =>
      refine ⟨after, failure, ?_, ?_⟩
      · simp only [Execution.runBuiltin, hgaveUp, hunread, if_true]
      · simp only [run, hgaveUp]
  | @report after failure hgaveUp hunread =>
      refine ⟨after, failure, ?_, ?_⟩
      · simp only [Execution.runBuiltin, hgaveUp, Machine.endWith_of_isUnread hunread, ite_self]
      · simp only [run, hgaveUp]

/-- Else it leaves what it leaves within the shell, and ends with its code. -/
theorem runBuiltin_of_not_isUnread (h : ¬b.IsUnread operands streams shell m) :
    Execution.runBuiltin b shell operands streams m =
      ((b.run operands streams shell m).1,
        .exited ((b.run operands streams shell m).2.2.code % 256).toNat) := by
  simp only [Execution.runBuiltin, run]
  cases hexecute : b.execute operands streams shell m with
  | mk after result =>
      cases result with
      | ok left => rfl
      | error failure =>
          have hread : failure.isUnread ≠ true := fun hunread => h (.output hexecute hunread)
          have hheard : ¬after.IsUnread streams.error (failure.message ++ "\n") :=
            fun hunread => h (.report hexecute hunread)
          simp only [if_neg hread, Machine.endWith_of_not_isUnread hheard]
          rfl

end Builtin

namespace Execution

/-- The shell knows the signal that ends a process which nobody reads. -/
theorem exists_waitFor_endWith (m : Machine) (row : Nat) (text : String) (code : Nat) :
    ∃ status : Nat, waitFor (m.endWith row text (.exited code)).2 = .ok status := by
  by_cases h : m.IsUnread row text
  · rw [Machine.endWith_of_isUnread h]
    exact ⟨128 + brokenPipeSignal, rfl⟩
  · rw [Machine.endWith_of_not_isUnread h]
    exact ⟨code, rfl⟩

theorem exists_waitFor_runBuiltin (b : Builtin) (shell : Shell) (operands : List String)
    (streams : Streams) (m : Machine) :
    ∃ status : Nat, waitFor (runBuiltin b shell operands streams m).2 = .ok status := by
  by_cases h : b.IsUnread operands streams shell m
  · obtain ⟨after, failure, hkilled, -⟩ := Builtin.exists_failure_of_isUnread h
    rw [hkilled]
    exact ⟨128 + brokenPipeSignal, rfl⟩
  · rw [Builtin.runBuiltin_of_not_isUnread h]
    exact ⟨_, rfl⟩

end Execution

end LineShell
