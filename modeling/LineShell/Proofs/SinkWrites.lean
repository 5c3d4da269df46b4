import LineShell.Proofs.FreshFile

/-!
# What a command writes to its streams

A command writes to its output and to its error stream, now to the one and now to the other. Such
a write reaches nothing but what the row of its stream stands for: every other row is as it was, and
so is every place of the volume for which neither stream stands.
-/

namespace LineShell

/-- The streams that a command writes to. -/
inductive Sink where
  | output
  | error
  deriving DecidableEq, Repr

/-- The row of the table in which a stream is written. -/
def Streams.row (streams : Streams) : Sink → Nat
  | .output => streams.output
  | .error => streams.error

namespace Machine

variable {m : Machine} {row other : Nat} {streams : Streams} {spot : Location}

/-- The machine after some octets were written to streams, one piece after the other. -/
def writeAll (m : Machine) (streams : Streams) (writes : List (Sink × Bytes)) : Machine :=
  writes.foldl (fun m written => m.writeOrSkip (streams.row written.1) written.2) m

@[simp] theorem writeAll_nil (m : Machine) (streams : Streams) : m.writeAll streams [] = m := rfl

@[simp] theorem writeAll_cons (m : Machine) (streams : Streams) (written : Sink × Bytes)
    (rest : List (Sink × Bytes)) :
    m.writeAll streams (written :: rest) =
      (m.writeOrSkip (streams.row written.1) written.2).writeAll streams rest := rfl

/-- A write does not change for which file a row stands. -/
theorem opened?_writeOrSkip (m : Machine) (row : Nat) (written : Bytes) (other : Nat) :
    (m.writeOrSkip row written).opened? other = m.opened? other := by
  simp only [writeOrSkip]
  split
  case h_2 => rfl
  case h_1 after hwrite =>
    rcases write_cases hwrite with rfl | ⟨s, hchannel, rfl⟩ |
      ⟨spot, serial, access, offset, start, old, permissions, hchannel, -, -, rfl⟩
    · rfl
    · have hsame : Channel.opened? (.stream (s.write written)) = m.opened? row :=
        (opened?_of_channel? hchannel).symm
      exact opened?_setChannel hsame other
    · have hsame : Channel.opened? (.file spot serial access (start + written.length)) =
          m.opened? row := (opened?_of_channel? hchannel).symm
      exact opened?_setChannel hsame other

/-- A write changes no place but the one for which its row stands. -/
theorem find?_writeOrSkip (hapart : ∀ serial access, m.opened? row ≠ some (spot, serial, access))
    (written : Bytes) : (m.writeOrSkip row written).volume.find? spot = m.volume.find? spot := by
  simp only [writeOrSkip]
  split
  case h_2 => rfl
  case h_1 after hwrite =>
    rcases write_cases hwrite with rfl | ⟨s, hchannel, rfl⟩ |
      ⟨place, serial, access, offset, start, old, permissions, hchannel, -, -, rfl⟩
    · rfl
    · rfl
    · rw [Volume.find?_update, if_neg]
      rintro rfl
      exact hapart serial access (opened?_of_channel? hchannel)

/-- What is written to streams changes no place for which none of them stands. -/
theorem find?_writeAll
    (hapart : ∀ sink serial access, m.opened? (streams.row sink) ≠ some (spot, serial, access))
    (writes : List (Sink × Bytes)) :
    (m.writeAll streams writes).volume.find? spot = m.volume.find? spot := by
  induction writes generalizing m with
  | nil => rfl
  | cons written rest ih =>
      rw [writeAll_cons, ih, find?_writeOrSkip (hapart written.1)]
      intro sink serial access
      rw [opened?_writeOrSkip]
      exact hapart sink serial access

/-- Nothing can be written to what is closed, and it stays closed. -/
theorem closed_writeAll (hclosed : m.channel? row = some .closed) (streams : Streams)
    (writes : List (Sink × Bytes)) :
    (m.writeAll streams writes).channel? row = some .closed := by
  induction writes generalizing m with
  | nil => exact hclosed
  | cons written rest ih =>
      rw [writeAll_cons]
      apply ih
      by_cases hrow : row = streams.row written.1
      · subst hrow
        simp only [writeOrSkip, write, hclosed]
      · have hlt := (List.getElem?_eq_some_iff.mp hclosed).1
        exact ((keepsRow_writeOrSkip hrow written.2).channel?_eq hlt).trans hclosed

end Machine

end LineShell
