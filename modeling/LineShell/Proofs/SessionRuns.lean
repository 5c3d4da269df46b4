import LineShell.Proofs.HistoryAdditions
import LineShell.Proofs.KeyRuns
import LineShell.Session

/-!
# Runs of a session

A run of a session is a turn that ends it, or a turn after which it goes on. Every turn adds to the
history the line that was finished and what `history -r` reads in it, so a run adds what its turns
add, in their order.

## Implementation notes

`Session.Runs` does not count turns. A turn after which the session goes on has taken something off
the input, so that `Session.turns` with more turns than there are reads follows a run to its end.
-/

namespace LineShell

namespace Session

variable {settings : Settings} {host : Host} {s next last : Session} {ending : SessionEnd}

/-- The lines that a turn offers to the history: the line that is finished, and then what the
command on it reads from a file. -/
def added (settings : Settings) (host : Host) (s : Session) : List String :=
  match s.readLine settings host with
  | (ready, .line line) =>
    line :: Execution.readBack
      { ready.shell with history := ready.shell.history.add line } (ready.lend settings host)
      (parseLine line)
  | _ => []

/-- Turns up to the one that ends the session, with the lines that they offer. -/
inductive Runs (settings : Settings) (host : Host) :
    Session → List String → Session → SessionEnd → Prop
  | ends {s last : Session} {ending : SessionEnd}
      (turn_eq : s.turn settings host = (last, some ending)) :
      Runs settings host s (s.added settings host) last ending
  | goesOn {s next last : Session} {lines : List String} {ending : SessionEnd}
      (turn_eq : s.turn settings host = (next, none))
      (rest : Runs settings host next lines last ending) :
      Runs settings host s (s.added settings host ++ lines) last ending

theorem lines_readLine (settings : Settings) (host : Host) (s : Session) :
    (s.readLine settings host).1.shell.history.lines = s.shell.history.lines :=
  Editor.lines_readLine ..

/-- Running a line adds the line and what its command reads from a file. -/
theorem lines_runLine (settings : Settings) (host : Host) (s : Session) (line : String) :
    (s.runLine settings host line).1.shell.history.lines =
      s.shell.history.lines ++ History.recorded (line :: Execution.readBack
        { s.shell with history := s.shell.history.add line } (s.lend settings host)
        (parseLine line)) := by
  have hexecute := @Execution.lines_execute host
    { s.shell with history := s.shell.history.add line } (s.lend settings host) (parseLine line)
  rw [History.lines_add, List.append_assoc, ← History.recorded_append] at hexecute
  rw [← List.singleton_append, ← hexecute]
  simp only [runLine, Execution.runLine]
  split
  · rfl
  · split <;> rfl

/-- A turn adds what it offers, save blank lines. -/
theorem lines_turn (settings : Settings) (host : Host) (s : Session) :
    (s.turn settings host).1.shell.history.lines =
      s.shell.history.lines ++ History.recorded (s.added settings host) := by
  have hread := lines_readLine settings host s
  simp only [turn, added]
  split
  case h_1 ready line hline =>
    rw [hline] at hread ⊢
    rw [lines_runLine, hread]
  all_goals
    rename_i ready houtcome
    rw [houtcome] at hread ⊢
    rw [hread, History.recorded_nil, List.append_nil]

/-- A run adds what its turns offer, in order, save blank lines. -/
theorem lines_of_runs {lines : List String} (h : Runs settings host s lines last ending) :
    last.shell.history.lines = s.shell.history.lines ++ History.recorded lines := by
  induction h with
  | @ends s last ending turn_eq =>
      have hturn := lines_turn settings host s
      rwa [turn_eq] at hturn
  | @goesOn s next last lines ending turn_eq rest ih =>
      have hturn := lines_turn settings host s
      rw [turn_eq] at hturn
      rw [ih, hturn, History.recorded_append, List.append_assoc]

theorem dropOctets_suffix (n : Nat) (input : List Read) : dropOctets n input <:+ input := by
  fun_induction dropOctets n input with
  | case1 | case2 => exact List.suffix_rfl
  | case3 n value rest ih | case4 n rest ih | case5 n fault rest ih =>
      exact ih.trans (List.suffix_cons _ _)

/-- Commands can only take what comes first off the input. -/
theorem reclaim_suffix (settings : Settings) (host : Host) (input : List Read) (m : Machine) :
    reclaim settings host input m <:+ input := by
  simp only [reclaim]
  split
  · exact dropOctets_suffix ..
  · exact List.suffix_rfl

theorem length_input_runLine_le (settings : Settings) (host : Host) (s : Session) (line : String) :
    (s.runLine settings host line).1.input.length ≤ s.input.length := by
  simp only [runLine]
  split
  · exact (reclaim_suffix ..).length_le
  · split <;> exact (reclaim_suffix ..).length_le

/-- A turn after which the session goes on has taken something off the input. -/
theorem length_input_turn_lt (h : s.turn settings host = (next, none)) :
    next.input.length < s.input.length := by
  by_cases hne : s.input = []
  · -- Nothing can be read, so that the turn ends the session.
    have hread : (s.readLine settings host).2 = .endOfInput := by
      simp [readLine, hne, Editor.readLine, Editor.edit, LineState.start]
    rcases hresult : s.readLine settings host with ⟨ready, outcome⟩
    rw [hresult] at hread
    subst hread
    simp [turn, hresult] at h
  · have hread : (s.readLine settings host).1.input.length < s.input.length :=
      Editor.length_rest_edit_lt _ _ hne _ _
    simp only [turn] at h
    split at h
    case h_1 ready line hline =>
      rw [hline] at hread
      have hrun := length_input_runLine_le settings host ready line
      rw [h] at hrun
      exact Nat.lt_of_le_of_lt hrun hread
    case h_2 ready hline =>
      rw [hline] at hread
      obtain rfl := (Prod.mk.inj h).1
      exact hread
    case h_3 => simp at h
    case h_4 => simp at h

/-- With more turns than there are reads a session is run to its end. -/
theorem exists_runs (settings : Settings) (host : Host) {n : Nat} {s : Session}
    (h : s.input.length < n) :
    ∃ lines, Runs settings host s lines (turns settings host n s).1
      (turns settings host n s).2 := by
  induction n generalizing s with
  | zero => exact absurd h (Nat.not_lt_zero _)
  | succ n ih =>
      simp only [turns]
      rcases hturn : s.turn settings host with ⟨next, _ | ending⟩
      · have hless := length_input_turn_lt hturn
        obtain ⟨lines, hruns⟩ := ih (s := next) (by omega)
        exact ⟨_, .goesOn hturn hruns⟩
      · exact ⟨_, .ends hturn⟩

/-- As many turns as follow a run to its end find the end of this run. -/
theorem turns_eq_of_runs {lines : List String} {n : Nat}
    (h : Runs settings host s lines last ending) (hn : s.input.length < n) :
    turns settings host n s = (last, ending) := by
  induction h generalizing n with
  | ends turn_eq =>
      cases n with
      | zero => exact absurd hn (Nat.not_lt_zero _)
      | succ n => simp only [turns, turn_eq]
  | goesOn turn_eq rest ih =>
      cases n with
      | zero => exact absurd hn (Nat.not_lt_zero _)
      | succ n =>
          have hless := length_input_turn_lt turn_eq
          simp only [turns, turn_eq]
          exact ih (by omega)

end Session

end LineShell
