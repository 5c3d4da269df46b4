import LineShell.History.File

/-!
# A history in use

All that can be asked of a history: to add a line, to walk over the lines, to list them, and to read
or write a file. What becomes of a file depends on the machine that an operation meets, and between
two operations other processes may have changed it. So a history is reachable if operations lead to
it, each of them on a machine and in a directory of its own.
-/

namespace LineShell.History

/-- What can be asked of a history. -/
inductive Operation where
  | add (line : String)
  | resetCursor
  | previous
  | next
  | recent (count : Nat)
  | load (path : String)
  | loadInitial (path : String)
  | save (path : String)
  | appendTo (path : String)
  deriving DecidableEq, Repr

/-- What an operation leaves behind, and what went wrong if it failed. -/
structure Outcome where
  machine : Machine
  history : History
  fault? : Option FileFault
  deriving DecidableEq, Repr

/-- Who owns a history keeps it when an operation on a file fails. -/
def keepOnFault (h : History) : Machine × Except FileFault History → Outcome
  | (m, .ok changed) => ⟨m, changed, none⟩
  | (m, .error fault) => ⟨m, h, some fault⟩

/-- What an operation does on a machine, in a directory, to a history. -/
def Operation.perform (operation : Operation) (cwd : WorkingDirectory) (m : Machine)
    (h : History) : Outcome :=
  match operation with
  | .add line => ⟨m, h.add line, none⟩
  | .resetCursor => ⟨m, h.resetCursor, none⟩
  | .previous => ⟨m, (h.previous?.map (·.2)).getD h, none⟩
  | .next => ⟨m, (h.next?.map (·.2)).getD h, none⟩
  | .recent _ => ⟨m, h, none⟩
  | .load path => h.keepOnFault (m, h.load m.volume cwd path)
  | .loadInitial path => h.keepOnFault (m, h.loadInitial m.volume cwd path)
  | .save path => h.keepOnFault (h.save m cwd path)
  | .appendTo path => h.keepOnFault (h.appendTo m cwd path)

/-- Histories to which operations lead from the empty one, whatever they meet. -/
inductive Reachable : History → Prop
  | empty : Reachable .empty
  | perform {h : History} (reached : Reachable h) (operation : Operation)
      (cwd : WorkingDirectory) (m : Machine) : Reachable (operation.perform cwd m h).history

end LineShell.History
