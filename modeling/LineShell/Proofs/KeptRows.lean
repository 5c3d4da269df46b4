import LineShell.Redirection

/-!
# What is kept in a row and what passes through a pipe

A step of the machine that works on one row of the table keeps all the others. What is written to
the row of a pipe waits there behind what was written before.

## Implementation notes

`Machine.KeepsRow` and `Machine.Passes` are about one row each and compose step by step. A row that
is not there yet may become any channel, so `KeepsRow` also says that no row is lost.
-/

namespace LineShell

namespace Stream

theorem unread_eq (s : Stream) : s.unread = s.front ++ s.back.reverse.flatten := by
  simp only [unread]
  split
  · rename_i hback
    simp [List.isEmpty_iff.mp hback]
  · rfl

/-- What is written waits behind the rest, unless the writer was cut off. -/
theorem unread_write {s : Stream} (hcut : s.isCut = false) (piece : Bytes) :
    (s.write piece).unread = s.unread ++ piece := by
  simp [unread_eq, write, hcut]

end Stream

namespace Machine

variable {m a b c : Machine} {row other pipe : Nat} {written sent : Bytes}

/-- One row is as it was, and no row is lost. -/
structure KeepsRow (row : Nat) (m after : Machine) : Prop where
  length_le : m.channels.length ≤ after.channels.length
  channel?_eq : row < m.channels.length → after.channel? row = m.channel? row

namespace KeepsRow

theorem refl (row : Nat) (m : Machine) : KeepsRow row m m :=
  ⟨Nat.le_refl _, fun _ => rfl⟩

theorem trans (hab : KeepsRow row a b) (hbc : KeepsRow row b c) : KeepsRow row a c where
  length_le := Nat.le_trans hab.length_le hbc.length_le
  channel?_eq hrow := calc
    c.channel? row = b.channel? row := hbc.channel?_eq (Nat.lt_of_lt_of_le hrow hab.length_le)
    _ = a.channel? row := hab.channel?_eq hrow

/-- Rows that are new may be dropped again. -/
theorem closeFrom (h : KeepsRow row a b) {first : Nat} (hfirst : a.channels.length ≤ first) :
    KeepsRow row a (b.closeFrom first) where
  length_le := by
    have hle := h.length_le
    simp only [Machine.closeFrom, List.length_take]
    omega
  channel?_eq hrow := by
    have hlt : row < first := Nat.lt_of_lt_of_le hrow hfirst
    calc
      (b.closeFrom first).channel? row = b.channel? row := by
        simp [Machine.closeFrom, channel?, hlt]
      _ = a.channel? row := h.channel?_eq hrow

end KeepsRow

theorem keepsRow_setChannel (hne : row ≠ other) (channel : Channel) :
    KeepsRow row m (m.setChannel other channel) where
  length_le := by simp [setChannel]
  channel?_eq _ := by simp [setChannel, channel?, List.getElem?_set_ne (Ne.symm hne)]

theorem keepsRow_addChannel (row : Nat) (m : Machine) (channel : Channel) :
    KeepsRow row m (m.addChannel channel).1 where
  length_le := by simp [addChannel]
  channel?_eq hrow := by simp [addChannel, channel?, List.getElem?_append_left hrow]

theorem keepsRow_closeSuperseded {r : Redirection} {target : Target} {new : Nat}
    (hne : r.superseded target new ≠ some row) :
    KeepsRow row m (r.closeSuperseded m target new) := by
  simp only [Redirection.closeSuperseded]
  split
  · rename_i old hold
    exact keepsRow_setChannel (fun h => hne (by rw [hold, h])) _
  · exact .refl row m

/-- A file is opened in a new row. -/
theorem openFile_eq {cwd : WorkingDirectory} {path : String} {append : Bool} {opened : Machine}
    {new : Nat} (hopen : m.openFile cwd path append = .ok (opened, new)) :
    new = m.channels.length ∧ ∃ channel, opened.channels = m.channels ++ [channel] := by
  simp only [openFile] at hopen
  split at hopen
  · simp at hopen
  · obtain ⟨rfl, rfl⟩ := Prod.mk.inj (Except.ok.inj hopen)
    exact ⟨rfl, _, rfl⟩
  · obtain ⟨rfl, rfl⟩ := Prod.mk.inj (Except.ok.inj hopen)
    exact ⟨rfl, _, rfl⟩

theorem keepsRow_openFile {cwd : WorkingDirectory} {path : String} {append : Bool}
    {opened : Machine} {new : Nat} (row : Nat)
    (hopen : m.openFile cwd path append = .ok (opened, new)) : KeepsRow row m opened := by
  obtain ⟨-, channel, hchannels⟩ := openFile_eq hopen
  constructor
  · simp [hchannels]
  · intro hrow
    simp only [channel?, hchannels, List.getElem?_append_left hrow]

theorem keepsRow_write (hne : row ≠ other) {after : Machine}
    (hwrite : m.write other written = .ok after) : KeepsRow row m after := by
  simp only [write] at hwrite
  split at hwrite
  any_goals simp at hwrite
  split at hwrite
  · obtain rfl := Except.ok.inj hwrite
    exact .refl row m
  · split at hwrite
    · split at hwrite
      · simp at hwrite
      · obtain rfl := Except.ok.inj hwrite
        exact keepsRow_setChannel hne _
    · simp at hwrite
    · simp at hwrite
    · split at hwrite
      · obtain rfl := Except.ok.inj hwrite
        have hset := keepsRow_setChannel (m := m) hne
        exact ⟨(hset _).length_le, (hset _).channel?_eq⟩
      · obtain rfl := Except.ok.inj hwrite
        exact .refl row m
    · obtain rfl := Except.ok.inj hwrite
      exact .refl row m

theorem keepsRow_writeOrSkip (hne : row ≠ other) (written : Bytes) :
    KeepsRow row m (m.writeOrSkip other written) := by
  simp only [writeOrSkip]
  split
  · rename_i after hwrite
    exact keepsRow_write hne hwrite
  · exact .refl row m

theorem keepsRow_consume (hne : row ≠ other) (count : Nat) :
    KeepsRow row m (m.consume other count) := by
  simp only [consume]
  split
  · exact keepsRow_setChannel hne _
  · exact keepsRow_setChannel hne _
  · exact keepsRow_setChannel hne _
  · exact .refl row m

theorem keepsRow_takeAll (hne : row ≠ other) : KeepsRow row m (m.takeAll other).1 := by
  simp only [takeAll]
  split
  · exact keepsRow_setChannel hne _
  · exact keepsRow_consume hne _

/-- What waits in the stream in a row. -/
def Waits (m : Machine) (row : Nat) (waiting : Bytes) : Prop :=
  ∃ s, m.channel? row = some (.stream s) ∧ s.unread = waiting

section Waits

variable {waiting : Bytes}

theorem Waits.lt_length (h : m.Waits row waiting) : row < m.channels.length := by
  obtain ⟨s, hchannel, -⟩ := h
  exact (List.getElem?_eq_some_iff.mp hchannel).1

theorem Waits.unread_eq (h : m.Waits row waiting) : m.unread row = (waiting, []) := by
  obtain ⟨s, hchannel, rfl⟩ := h
  simp only [unread, hchannel]

theorem Waits.of_keepsRow (h : a.Waits row waiting) (hkeeps : KeepsRow row a b) :
    b.Waits row waiting := by
  have hlt := h.lt_length
  obtain ⟨s, hchannel, hwaiting⟩ := h
  exact ⟨s, (hkeeps.channel?_eq hlt).trans hchannel, hwaiting⟩

theorem Waits.closeFrom (h : m.Waits row waiting) {first : Nat} (hfirst : row < first) :
    (m.closeFrom first).Waits row waiting := by
  obtain ⟨s, hchannel, hwaiting⟩ := h
  refine ⟨s, ?_, hwaiting⟩
  simpa [Machine.closeFrom, channel?, hfirst] using hchannel

/-- Cutting off a writer takes nothing away from what it wrote. -/
theorem Waits.cutIfStarved (h : m.Waits row waiting) (input : Nat) :
    (m.cutIfStarved input row).Waits row waiting := by
  have hlt := h.lt_length
  obtain ⟨s, hchannel, hwaiting⟩ := h
  simp only [Machine.cutIfStarved]
  split
  · refine ⟨s.cut, ?_, hwaiting⟩
    simp only [cut, hchannel]
    exact List.getElem?_set_self hlt
  · exact ⟨s, hchannel, hwaiting⟩

end Waits

/-- A pipe whose reader is there and whose writer was not cut off, with what waits in it. -/
def Holds (m : Machine) (pipe : Nat) (waiting : Bytes) : Prop :=
  ∃ s, m.channel? pipe = some (.stream s) ∧ s.isBroken = false ∧ s.isCut = false ∧
    s.unread = waiting

theorem Holds.waits (h : m.Holds pipe written) : m.Waits pipe written := by
  obtain ⟨s, hchannel, -, -, hwaiting⟩ := h
  exact ⟨s, hchannel, hwaiting⟩

/-- A new pipe is empty. -/
theorem holds_addChannel_pipe (m : Machine) :
    (m.addChannel (.stream .pipe)).1.Holds m.channels.length [] :=
  ⟨.pipe, by simp [addChannel, channel?], rfl, rfl, rfl⟩

/-- Some octets are written to a pipe, behind what waits in it. -/
structure Passes (pipe : Nat) (m : Machine) (sent : Bytes) (after : Machine) : Prop where
  holds : ∀ waiting, m.Holds pipe waiting → after.Holds pipe (waiting ++ sent)

theorem KeepsRow.passes (h : KeepsRow pipe a b) : Passes pipe a [] b := by
  constructor
  intro waiting hholds
  have hlt := hholds.waits.lt_length
  obtain ⟨s, hchannel, hopen⟩ := hholds
  rw [List.append_nil]
  exact ⟨s, (h.channel?_eq hlt).trans hchannel, hopen⟩

theorem Passes.trans {first second : Bytes} (hab : Passes pipe a first b)
    (hbc : Passes pipe b second c) : Passes pipe a (first ++ second) c := by
  constructor
  intro waiting hholds
  rw [← List.append_assoc]
  exact hbc.holds _ (hab.holds _ hholds)

theorem Passes.then_keeps (hab : Passes pipe a sent b) (hbc : KeepsRow pipe b c) :
    Passes pipe a sent c := by
  have hac := hab.trans hbc.passes
  rwa [List.append_nil] at hac

/-- Writing to a pipe succeeds. -/
theorem exists_write_of_holds {waiting : Bytes} (h : m.Holds pipe waiting) (written : Bytes) :
    ∃ after, m.write pipe written = .ok after ∧ after.Holds pipe (waiting ++ written) := by
  have hlt := h.waits.lt_length
  obtain ⟨s, hchannel, hbroken, hcut, hwaiting⟩ := h
  by_cases hempty : written = []
  · subst hempty
    refine ⟨m, ?_, ?_⟩
    · simp [write, hchannel]
    · rw [List.append_nil]
      exact ⟨s, hchannel, hbroken, hcut, hwaiting⟩
  · have hwritten : (s.write written).unread = waiting ++ written := by
      rw [Stream.unread_write hcut, hwaiting]
    refine ⟨m.setChannel pipe (.stream (s.write written)), ?_, ?_⟩
    · simp [write, hchannel, hempty, hbroken]
    · refine ⟨s.write written, ?_, hbroken, hcut, hwritten⟩
      simp [setChannel, channel?, List.getElem?_set_self hlt]

theorem passes_writeOrSkip (pipe : Nat) (m : Machine) (written : Bytes) :
    Passes pipe m written (m.writeOrSkip pipe written) := by
  constructor
  intro waiting hholds
  obtain ⟨after, hwrite, hafter⟩ := exists_write_of_holds hholds written
  simp only [writeOrSkip, hwrite]
  exact hafter

end Machine

end LineShell
