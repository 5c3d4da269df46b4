import LineShell.Proofs.PromptAgain

/-!
# Text that was shown in one session only

Of two sessions, one has shown some text that the other has not. If the editor shows its lines on
the standard output, this text stands in the stream there as well, somewhere among what the commands
have written. All else is the same in both of them, and stays so as long as the commands do the same
whatever is in the stream.

## Implementation notes

Streams that hold the same octets need not be equal, since a stream keeps the pieces in which it was
written to. So `Stream.Inserted` compares what can be read from streams, and how they answer a
writer.
-/

namespace LineShell

namespace Stream

variable {s t : Stream} {echo : Bytes}

/-- In the stream `t` some octets wait among those that wait in `s`. -/
structure Inserted (echo : Bytes) (s t : Stream) : Prop where
  isPipe_eq : t.isPipe = s.isPipe
  isCut_eq : t.isCut = s.isCut
  isEnded_eq : t.isEnded = s.isEnded
  isBroken_eq : t.isBroken = s.isBroken
  unread_eq : ∃ before after, s.unread = before ++ after ∧ t.unread = before ++ echo ++ after

theorem unread_write_of_cut (hcut : s.isCut = true) (piece : Bytes) :
    (s.write piece).unread = s.unread := by
  simp only [unread_eq, write, hcut, if_true]

theorem inserted_write (hcut : s.isCut = false) (piece : Bytes) :
    s.Inserted piece (s.write piece) :=
  ⟨rfl, rfl, rfl, rfl, s.unread, [], by simp, by simp [unread_write hcut]⟩

/-- What is written to both streams comes behind what waits in them. -/
theorem Inserted.write (h : s.Inserted echo t) (piece : Bytes) :
    (s.write piece).Inserted echo (t.write piece) := by
  refine ⟨h.isPipe_eq, h.isCut_eq, h.isEnded_eq, h.isBroken_eq, ?_⟩
  obtain ⟨before, after, hs, ht⟩ := h.unread_eq
  cases hcut : s.isCut with
  | true =>
      refine ⟨before, after, ?_, ?_⟩
      · rw [unread_write_of_cut hcut, hs]
      · rw [unread_write_of_cut (h.isCut_eq.trans hcut), ht]
  | false =>
      refine ⟨before, after ++ piece, ?_, ?_⟩
      · rw [unread_write hcut, hs, List.append_assoc]
      · rw [unread_write (h.isCut_eq.trans hcut), ht, List.append_assoc]

end Stream

/-- Two attempts fail in the same way, or have results that are related. -/
def Both {ε α β : Type} (R : α → β → Prop) (first : Except ε α) (second : Except ε β) : Prop :=
  (∃ fault, first = .error fault ∧ second = .error fault) ∨
    ∃ a b, first = .ok a ∧ second = .ok b ∧ R a b

namespace Machine

variable {m n : Machine} {row other : Nat} {echo : Bytes}

/-- The machine `n` is `m` with some octets more in the stream in a row. -/
def Echoed (row : Nat) (echo : Bytes) (m n : Machine) : Prop :=
  ∃ s t, m.channel? row = some (.stream s) ∧ s.Inserted echo t ∧
    n = m.setChannel row (.stream t)

/-- Something was done that came to the same on a machine and on one with some octets more. -/
def Echoes {α : Type} (row : Nat) (echo : Bytes) (first second : Machine × α) : Prop :=
  first.1.Echoed row echo second.1 ∧ second.2 = first.2

theorem Echoes.exists_eq {α : Type} {first second : Machine × α}
    (h : Echoes row echo first second) :
    ∃ after final result, first = (after, result) ∧ second = (final, result) ∧
      after.Echoed row echo final :=
  ⟨first.1, second.1, first.2, rfl, Prod.ext rfl h.2, h.1⟩

theorem Echoes.map {α β : Type} {first second : Machine × α} (h : Echoes row echo first second)
    (f : α → β) : Echoes row echo (first.1, f first.2) (second.1, f second.2) :=
  ⟨h.1, congrArg f h.2⟩

namespace Echoed

theorem exists_eq (h : m.Echoed row echo n) :
    ∃ channels, n = { m with channels := channels } := by
  obtain ⟨_, _, -, -, rfl⟩ := h
  exact ⟨_, rfl⟩

theorem volume_eq (h : m.Echoed row echo n) : n.volume = m.volume := by
  obtain ⟨_, rfl⟩ := h.exists_eq
  rfl

theorem patience_eq (h : m.Echoed row echo n) : n.patience = m.patience := by
  obtain ⟨_, rfl⟩ := h.exists_eq
  rfl

theorem lt_length (h : m.Echoed row echo n) : row < m.channels.length := by
  obtain ⟨_, _, hrow, -, -⟩ := h
  exact (List.getElem?_eq_some_iff.mp hrow).1

theorem length_eq (h : m.Echoed row echo n) : n.channels.length = m.channels.length := by
  obtain ⟨_, _, -, -, rfl⟩ := h
  exact length_channels_setChannel ..

/-- No channel but the one in the row differs. -/
theorem channel?_of_ne (h : m.Echoed row echo n) (hne : row ≠ other) :
    n.channel? other = m.channel? other := by
  obtain ⟨_, _, -, -, rfl⟩ := h
  exact channel?_setChannel_of_ne hne

theorem stream?_of_ne (h : m.Echoed row echo n) (hne : row ≠ other) :
    n.stream? other = m.stream? other := by
  simp only [stream?, h.channel?_of_ne hne]

theorem unread_of_ne (h : m.Echoed row echo n) (hne : row ≠ other) :
    n.unread other = m.unread other := by
  simp only [unread, h.channel?_of_ne hne, contentsOf, h.volume_eq]

theorem setChannel (h : m.Echoed row echo n) (hne : row ≠ other) (channel : Channel) :
    (m.setChannel other channel).Echoed row echo (n.setChannel other channel) := by
  obtain ⟨s, t, hrow, hinserted, rfl⟩ := h
  exact ⟨s, t, (channel?_setChannel_of_ne hne.symm).trans hrow, hinserted,
    setChannel_comm hne ..⟩

theorem addChannel (h : m.Echoed row echo n) (channel : Channel) :
    Echoes row echo (m.addChannel channel) (n.addChannel channel) := by
  have hlt := h.lt_length
  refine ⟨?_, h.length_eq⟩
  obtain ⟨s, t, hrow, hinserted, rfl⟩ := h
  refine ⟨s, t, ?_, hinserted, ?_⟩
  · rw [← hrow]
    exact (keepsRow_addChannel row m channel).channel?_eq hlt
  · simp only [Machine.addChannel, Machine.setChannel, List.set_append_left _ _ hlt]

theorem closeFrom (h : m.Echoed row echo n) {first : Nat} (hrow : row < first) :
    (m.closeFrom first).Echoed row echo (n.closeFrom first) := by
  obtain ⟨s, t, hchannel, hinserted, rfl⟩ := h
  exact ⟨s, t, (channel?_closeFrom hrow).trans hchannel, hinserted, closeFrom_setChannel ..⟩

theorem withVolume (h : m.Echoed row echo n) (volume : Volume) :
    Echoed row echo { m with volume := volume } { n with volume := volume } := by
  obtain ⟨s, t, hrow, hinserted, rfl⟩ := h
  exact ⟨s, t, hrow, hinserted, rfl⟩

theorem withPatience (h : m.Echoed row echo n) (patience : Nat) :
    Echoed row echo { m with patience := patience } { n with patience := patience } := by
  obtain ⟨s, t, hrow, hinserted, rfl⟩ := h
  exact ⟨s, t, hrow, hinserted, rfl⟩

/-- Writing the same to the same row keeps the difference as it is, or fails. -/
theorem write (h : m.Echoed row echo n) (other : Nat) (written : Bytes) :
    Both (Echoed row echo) (m.write other written) (n.write other written) := by
  obtain ⟨s, t, hrow, hinserted, rfl⟩ := h
  by_cases hne : row = other
  · subst hne
    have hset (next : Channel) : (m.setChannel row next).channel? row = some next := by
      rw [channel?_setChannel_self, hrow]
      rfl
    simp only [Machine.write, hrow, hset, hinserted.isBroken_eq]
    split
    · exact .inr ⟨_, _, rfl, rfl, s, t, hrow, hinserted, rfl⟩
    · split
      · exact .inl ⟨_, rfl, rfl⟩
      · refine .inr ⟨_, _, rfl, rfl, s.write written, t.write written, hset _,
          hinserted.write written, ?_⟩
        rw [setChannel_setChannel, setChannel_setChannel]
  · rw [write_setChannel_of_ne hne]
    cases hwrite : m.write other written with
    | error fault => exact .inl ⟨fault, rfl, rfl⟩
    | ok after =>
        have hkept := (keepsRow_write hne hwrite).channel?_eq (List.getElem?_eq_some_iff.mp hrow).1
        exact .inr ⟨after, _, rfl, rfl, s, t, hkept.trans hrow, hinserted, rfl⟩

theorem writeOrSkip (h : m.Echoed row echo n) (other : Nat) (written : Bytes) :
    (m.writeOrSkip other written).Echoed row echo (n.writeOrSkip other written) := by
  simp only [Machine.writeOrSkip]
  obtain ⟨fault, hfirst, hsecond⟩ | ⟨after, final, hfirst, hsecond, hafter⟩ :=
    h.write other written
  · rw [hfirst, hsecond]
    exact h
  · rw [hfirst, hsecond]
    exact hafter

theorem printOrSkip (h : m.Echoed row echo n) (other : Nat) (text : String) :
    (m.printOrSkip other text).Echoed row echo (n.printOrSkip other text) :=
  h.writeOrSkip other (octets text)

/-- A file is opened in the same new row. -/
theorem openFile (h : m.Echoed row echo n) (cwd : WorkingDirectory) (path : String)
    (append : Bool) :
    Both (fun first second => Echoes row echo first second ∧ row < first.2)
      (m.openFile cwd path append) (n.openFile cwd path append) := by
  have hlt := h.lt_length
  simp only [Machine.openFile, h.volume_eq]
  split
  · exact .inl ⟨_, rfl, rfl⟩
  · exact .inr ⟨_, _, rfl, rfl, (h.withVolume _).addChannel _, hlt⟩
  · exact .inr ⟨_, _, rfl, rfl, (h.withVolume _).addChannel _, hlt⟩

end Echoed

/-- What is printed to a stream that takes it is more in the stream than without it. -/
theorem Holds.echoed_printOrSkip {waiting : Bytes} (h : m.Holds row waiting) (text : String) :
    m.Echoed row (octets text) (m.printOrSkip row text) := by
  obtain ⟨s, hrow, hbroken, hcut, -⟩ := h
  by_cases hempty : octets text = []
  · refine ⟨s, s, hrow, ⟨rfl, rfl, rfl, rfl, s.unread, [], by simp, by simp [hempty]⟩, ?_⟩
    simp [Machine.printOrSkip, print, Machine.write, hrow, hempty, setChannel_of_channel? hrow]
  · refine ⟨s, s.write (octets text), hrow, Stream.inserted_write hcut _, ?_⟩
    simp [Machine.printOrSkip, print, Machine.write, hrow, hempty, hbroken]

end Machine

/-- Writing a history file does the same on both machines. -/
theorem History.echoes_writeFrom {m n : Machine} {row : Nat} {echo : Bytes}
    (h : m.Echoed row echo n) (history : History) (cwd : WorkingDirectory) (path : String)
    (position : Nat) (append : Bool) :
    Machine.Echoes row echo (history.writeFrom m cwd path position append)
      (history.writeFrom n cwd path position append) := by
  simp only [writeFrom]
  obtain ⟨fault, hfirst, hsecond⟩ |
    ⟨⟨opened, _⟩, ⟨final, new⟩, hfirst, hsecond, ⟨hopened, rfl⟩, hlt⟩ :=
      h.openFile cwd path append
  · rw [hfirst, hsecond]
    exact ⟨h, rfl⟩
  · rw [hfirst, hsecond]
    dsimp only [Machine.print]
    obtain ⟨fault, hfirst, hsecond⟩ | ⟨after, last, hfirst, hsecond, hafter⟩ :=
      hopened.write new (octets (fileText (history.lines.drop position)))
    · rw [hfirst, hsecond]
      exact ⟨hopened.closeFrom hlt, rfl⟩
    · rw [hfirst, hsecond]
      exact ⟨hafter.closeFrom hlt, rfl⟩

end LineShell
