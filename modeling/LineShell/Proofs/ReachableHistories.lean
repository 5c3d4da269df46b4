import LineShell.History.Operation
import LineShell.Proofs.HistoryAdditions
import LineShell.Proofs.KeyRuns

/-!
# What holds of every history in use

No operation takes a line away or changes one, so the lines that a history had are the first ones
that it has afterwards. The cursor and the count of lines in the file stay within the lines, and no
blank line comes in, whatever the operations find on the machine. An operation that fails leaves the
history as it was.

## Implementation notes

There is one lemma for each function that makes a new history of an old one. `WellFormed.perform`
puts them together for a step, and `Reachable.wellFormed` follows the steps.
-/

namespace LineShell.History

variable {h after : History} {line path : String} {volume : Volume} {m left : Machine}
  {cwd : WorkingDirectory} {fault : FileFault}

/-! ## Well-formed histories -/

theorem wellFormed_empty : History.empty.WellFormed :=
  ⟨Nat.le_refl _, Nat.le_refl _, by simp [History.empty]⟩

theorem WellFormed.resetCursor (hwell : h.WellFormed) : h.resetCursor.WellFormed :=
  ⟨Nat.le_refl _, hwell.persisted_le, hwell.not_blank⟩

theorem WellFormed.addAll (hwell : h.WellFormed) (lines : List String) :
    (h.addAll lines).WellFormed where
  cursor_le := Nat.le_refl _
  persisted_le := by
    rw [persisted_addAll, lines_addAll, List.length_append]
    exact Nat.le_add_right_of_le hwell.persisted_le
  not_blank := by
    intro line hline
    rw [lines_addAll, List.mem_append, List.mem_filter] at hline
    rcases hline with hold | ⟨-, hnew⟩
    · exact hwell.not_blank line hold
    · simpa using hnew

/-- Going back leads to a line, so the cursor stays within the lines. -/
theorem WellFormed.of_previous? (hwell : h.WellFormed)
    (hprevious : h.previous? = some (line, after)) : after.WellFormed := by
  simp only [previous?] at hprevious
  split at hprevious
  · simp at hprevious
  · rename_i n hcursor
    simp only [Option.map_eq_some_iff, Prod.mk.injEq] at hprevious
    obtain ⟨found, -, -, rfl⟩ := hprevious
    have hle := hwell.cursor_le
    exact ⟨by dsimp only; omega, hwell.persisted_le, hwell.not_blank⟩

/-- Going forth is possible only in front of the end. -/
theorem WellFormed.of_next? (hwell : h.WellFormed) (hnext : h.next? = some (line, after)) :
    after.WellFormed := by
  simp only [next?] at hnext
  split at hnext
  · rename_i hlt
    simp only [Option.some.injEq, Prod.mk.injEq] at hnext
    obtain ⟨-, rfl⟩ := hnext
    exact ⟨hlt, hwell.persisted_le, hwell.not_blank⟩
  · simp at hnext

theorem WellFormed.of_load (hwell : h.WellFormed) (hload : h.load volume cwd path = .ok after) :
    after.WellFormed := by
  rcases load_cases hload with ⟨-, rfl⟩ | rfl
  · exact hwell
  · exact hwell.addAll _

/-- The history file is loaded like any other, but its lines count as written. -/
theorem exists_load_of_loadInitial (hload : h.loadInitial volume cwd path = .ok after) :
    ∃ loaded, h.load volume cwd path = .ok loaded ∧
      after = { loaded with persisted := loaded.lines.length } := by
  simp only [loadInitial] at hload
  split at hload
  · rename_i loaded hloaded
    exact ⟨loaded, hloaded, (Except.ok.inj hload).symm⟩
  · simp at hload

theorem WellFormed.of_loadInitial (hwell : h.WellFormed)
    (hload : h.loadInitial volume cwd path = .ok after) : after.WellFormed := by
  obtain ⟨loaded, hloaded, rfl⟩ := exists_load_of_loadInitial hload
  have hwell := hwell.of_load hloaded
  exact ⟨hwell.cursor_le, Nat.le_refl _, hwell.not_blank⟩

/-- The count moves only when all lines have been written. -/
theorem WellFormed.of_writeFrom {position : Nat} {append : Bool} (hwell : h.WellFormed)
    (hwrite : h.writeFrom m cwd path position append = (left, .ok after)) :
    after.WellFormed := by
  rw [eq_of_writeFrom hwrite]
  exact ⟨hwell.cursor_le, Nat.le_refl _, hwell.not_blank⟩

/-- What may be concluded of a history that is kept on a fault: what holds of the old one, and of
every new one. -/
theorem keepOnFault_of {p : History → Prop} (result : Machine × Except FileFault History)
    (hold : p h) (hnew : ∀ left after, result = (left, .ok after) → p after) :
    p (h.keepOnFault result).history := by
  obtain ⟨left, fault | after⟩ := result
  · exact hold
  · exact hnew left after rfl

/-- Every operation keeps a history well-formed, whether it fails or not. -/
theorem WellFormed.perform (hwell : h.WellFormed) (operation : Operation) (cwd : WorkingDirectory)
    (m : Machine) : (operation.perform cwd m h).history.WellFormed := by
  cases operation with
  | add line => exact hwell.addAll [line]
  | resetCursor => exact hwell.resetCursor
  | previous =>
      simp only [Operation.perform]
      cases hprevious : h.previous? with
      | none => exact hwell
      | some walked => exact hwell.of_previous? hprevious
  | next =>
      simp only [Operation.perform]
      cases hnext : h.next? with
      | none => exact hwell
      | some walked => exact hwell.of_next? hnext
  | recent count => exact hwell
  | load path =>
      exact keepOnFault_of _ hwell fun _ _ hload => hwell.of_load (Prod.mk.inj hload).2
  | loadInitial path =>
      exact keepOnFault_of _ hwell fun _ _ hload => hwell.of_loadInitial (Prod.mk.inj hload).2
  | save path => exact keepOnFault_of _ hwell fun _ _ hsave => hwell.of_writeFrom hsave
  | appendTo path => exact keepOnFault_of _ hwell fun _ _ happend => hwell.of_writeFrom happend

theorem Reachable.wellFormed (hreach : Reachable h) : h.WellFormed := by
  induction hreach with
  | empty => exact wellFormed_empty
  | perform _ operation cwd m ih => exact ih.perform operation cwd m

/-! ## Lines that stay, and faults that change nothing -/

/-- The lines that an operation brings in, blank ones included. -/
def Operation.entered (operation : Operation) (cwd : WorkingDirectory) (m : Machine) :
    List String :=
  match operation with
  | .add line => [line]
  | .load path | .loadInitial path => recordsAt m.volume cwd path
  | _ => []

theorem lines_loadInitial (hload : h.loadInitial volume cwd path = .ok after) :
    after.lines = h.lines ++ recorded (recordsAt volume cwd path) := by
  obtain ⟨loaded, hloaded, rfl⟩ := exists_load_of_loadInitial hload
  have hlines := lines_load hloaded
  exact hlines

theorem recordsAt_of_loadInitial_error (hload : h.loadInitial volume cwd path = .error fault) :
    recordsAt volume cwd path = [] := by
  simp only [loadInitial] at hload
  split at hload
  · simp at hload
  · rename_i hfailed
    exact recordsAt_of_load_error hfailed

/-- Writing brings no line in, be it that it fails. -/
theorem lines_keepOnFault_writeFrom {position : Nat} {append : Bool} :
    (h.keepOnFault (h.writeFrom m cwd path position append)).history.lines = h.lines := by
  rcases hwrite : h.writeFrom m cwd path position append with ⟨left, fault | after⟩
  · rfl
  · exact lines_writeFrom hwrite

/-- An operation adds to the lines what it brings in, and a failed one brings nothing in. -/
theorem lines_perform (operation : Operation) (cwd : WorkingDirectory) (m : Machine)
    (h : History) : (operation.perform cwd m h).history.lines =
      h.lines ++ recorded (operation.entered cwd m) := by
  cases operation with
  | add line => exact lines_add h line
  | resetCursor => exact (List.append_nil _).symm
  | previous =>
      simp only [Operation.perform, Operation.entered, recorded_nil, List.append_nil]
      cases hprevious : h.previous? with
      | none => rfl
      | some walked => exact (of_previous? hprevious).2
  | next =>
      simp only [Operation.perform, Operation.entered, recorded_nil, List.append_nil]
      cases hnext : h.next? with
      | none => rfl
      | some walked => exact (of_next? hnext).2
  | recent count => exact (List.append_nil _).symm
  | load path =>
      simp only [Operation.perform, Operation.entered]
      cases hload : h.load m.volume cwd path with
      | ok loaded => exact lines_load hload
      | error fault => simp [keepOnFault, recordsAt_of_load_error hload]
  | loadInitial path =>
      simp only [Operation.perform, Operation.entered]
      cases hload : h.loadInitial m.volume cwd path with
      | ok loaded => exact lines_loadInitial hload
      | error fault => simp [keepOnFault, recordsAt_of_loadInitial_error hload]
  | save path => exact lines_keepOnFault_writeFrom.trans (List.append_nil _).symm
  | appendTo path => exact lines_keepOnFault_writeFrom.trans (List.append_nil _).symm

theorem keepOnFault_of_fault {result : Machine × Except FileFault History}
    (hfault : (h.keepOnFault result).fault? ≠ none) : (h.keepOnFault result).history = h := by
  obtain ⟨left, fault | after⟩ := result
  · rfl
  · exact absurd rfl hfault

/-- Operations on files may fail, and then they leave the history as it was. -/
theorem history_perform_of_fault {operation : Operation}
    (hfault : (operation.perform cwd m h).fault? ≠ none) :
    (operation.perform cwd m h).history = h := by
  cases operation with
  | add | resetCursor | previous | next | recent => exact absurd rfl hfault
  | load | loadInitial | save | appendTo => exact keepOnFault_of_fault hfault

/-- A history that came about by operations has its cursor and its count within the lines, so that
what is written from the count on begins there, and it has no blank line. One more operation keeps
all lines as the first ones, and changes nothing at all if it fails. -/
theorem lawful_of_reachable (hreach : Reachable h) (operation : Operation)
    (cwd : WorkingDirectory) (m : Machine) :
    h.cursor ≤ h.lines.length ∧ h.persisted ≤ h.lines.length ∧
      min h.persisted h.lines.length = h.persisted ∧
      (∀ line ∈ h.lines, isBlank line = false) ∧
      h.lines <+: (operation.perform cwd m h).history.lines ∧
      ((operation.perform cwd m h).fault? ≠ none → (operation.perform cwd m h).history = h) := by
  have hwell := hreach.wellFormed
  refine ⟨hwell.cursor_le, hwell.persisted_le, Nat.min_eq_left hwell.persisted_le,
    hwell.not_blank, ?_, history_perform_of_fault⟩
  rw [lines_perform]
  exact List.prefix_append ..

/-- A machine with one entry in the root of its volume. -/
def holding (name : String) (node : Node) : Machine :=
  ⟨Volume.empty.create [.text name] node, [], none, [], 1⟩

/-- A line is recalled, and then saving fails, since the device has no space. -/
theorem lawful_of_failed_save :
    Reachable ⟨["ls"], 0, 0⟩ ∧
      ((Operation.save "/full").perform .root (holding "full" (.device .full))
        ⟨["ls"], 0, 0⟩).fault? = some (.refused .noSpace) ∧
      ((Operation.save "/full").perform .root (holding "full" (.device .full))
        ⟨["ls"], 0, 0⟩).history = ⟨["ls"], 0, 0⟩ := by
  have hreach : Reachable ⟨["ls"], 0, 0⟩ :=
    (Reachable.empty.perform (.add "ls") .root (holding "full" (.device .full))).perform
      .previous .root (holding "full" (.device .full))
  have hfault : ((Operation.save "/full").perform .root (holding "full" (.device .full))
      ⟨["ls"], 0, 0⟩).fault? = some (.refused .noSpace) := by
    decide +kernel
  obtain ⟨-, -, -, -, -, hkept⟩ :=
    lawful_of_reachable hreach (.save "/full") .root (holding "full" (.device .full))
  exact ⟨hreach, hfault, hkept (by simp [hfault])⟩

end LineShell.History
