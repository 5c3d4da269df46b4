import LineShell.Proofs.FreshFile
import LineShell.Proofs.PipelineIsolation

/-!
# A machine apart from a new file

Reading from rows and writing to them comes to the same whether there is a new file that no row
stands for or not. `Machine.apart` is the machine without the file at a place, without rows that
were added, and without what nobody learns of the streams: how patient writers are, and whether a
reader has come to the end. What is done to the rows that were there before can be done apart.
-/

namespace LineShell

/-- A volume without the entry at a place, and without the number that the next one gets. -/
def Volume.apart (v : Volume) (place : Location) : Volume := ⟨(v.remove place).rows, 0⟩

namespace Volume

variable {place spot : Location}

theorem find?_apart (v : Volume) (place spot : Location) :
    (v.apart place).find? spot = if spot = place then none else v.find? spot :=
  v.find?_remove place spot

/-- Changing a file elsewhere can be done apart from the place. -/
theorem apart_update (v : Volume) (hspot : spot ≠ place) (node : Node) :
    (v.update spot node).apart place = (v.apart place).update spot node := by
  have hfind := find?_apart v place spot
  rw [if_neg hspot] at hfind
  simp only [update, hfind]
  cases v.find? spot with
  | none => rfl
  | some entry => simp [apart, remove, put, hspot, List.filter_filter, Bool.and_comm]

theorem apart_update_self (v : Volume) (place : Location) (node : Node) :
    (v.update place node).apart place = v.apart place := by
  simp only [update]
  cases v.find? place with
  | none => rfl
  | some entry => simp [apart, remove, put, List.filter_filter]

theorem apart_create (v : Volume) (place : Location) (node : Node) :
    (v.create place node).apart place = v.apart place := by
  simp [apart, remove, create, put, List.filter_filter]

end Volume

namespace Machine

/-- A machine with its first rows only, without the entry at a place, and without what nobody learns
of the streams. -/
def apart (x : Machine) (rows : Nat) (place : Location) : Machine where
  volume := x.volume.apart place
  channels := (x.channels.take rows).map Channel.forgetEnd
  terminal := x.terminal
  signals := x.signals
  patience := 0

variable {m x : Machine} {cwd : WorkingDirectory} {file : String} {place spot : Location}
  {row rows serial : Nat} {access : Access} {held : Option Bytes}

section Apart

theorem channel?_apart (hrow : row < rows) (x : Machine) (place : Location) :
    (x.apart rows place).channel? row = (x.channel? row).map Channel.forgetEnd := by
  simp [channel?, apart, hrow]

theorem apart_setChannel (x : Machine) (row : Nat) (channel : Channel) (rows : Nat)
    (place : Location) :
    (x.setChannel row channel).apart rows place =
      (x.apart rows place).setChannel row channel.forgetEnd := by
  simp only [apart, setChannel, List.take_set, List.map_set]

theorem apart_setChannel_of_le (hrow : rows ≤ row) (x : Machine) (channel : Channel) :
    (x.setChannel row channel).apart rows place = x.apart rows place := by
  have hlength : (x.channels.take rows).length ≤ row := by
    simp only [List.length_take]
    omega
  simp only [apart, setChannel, List.take_set, List.set_eq_of_length_le hlength]

theorem apart_closeFrom {first : Nat} (hfirst : rows ≤ first) (x : Machine) :
    (x.closeFrom first).apart rows place = x.apart rows place := by
  simp only [apart, closeFrom, List.take_take, Nat.min_eq_left hfirst]

theorem apart_addChannel (hrows : rows ≤ x.channels.length) (channel : Channel) :
    (x.addChannel channel).1.apart rows place = x.apart rows place := by
  simp only [apart, addChannel, List.take_append_of_le_length hrows]

theorem forgetEnd_forgetEnd (channel : Channel) :
    channel.forgetEnd.forgetEnd = channel.forgetEnd := by
  cases channel <;> rfl

theorem apart_forgetEnds (x : Machine) (rows : Nat) (place : Location) :
    x.forgetEnds.apart rows place = x.apart rows place := by
  simp [apart, forgetEnds, List.map_take, forgetEnd_forgetEnd, Function.comp_def]

theorem apart_apart (x : Machine) (rows : Nat) (place : Location) :
    (x.apart rows place).apart rows place = x.apart rows place := by
  simp [apart, Volume.apart, Volume.remove, List.map_take, List.take_take, forgetEnd_forgetEnd,
    Function.comp_def, List.filter_filter]

theorem apart_cutIfStarved {input output : Nat} (houtput : rows ≤ output) (x : Machine) :
    (x.cutIfStarved input output).apart rows place = x.apart rows place := by
  simp only [cutIfStarved, cut]
  split
  · split
    · exact apart_setChannel_of_le houtput x _
    · rfl
  · rfl

/-- What is written to a row that was added is written to a stream or to the new file. -/
theorem apart_of_write (h : m.Continues place held x) (hrow : m.channels.length ≤ row)
    {written : Bytes} {after : Machine} (hwrite : x.write row written = .ok after) :
    after.apart m.channels.length place = x.apart m.channels.length place := by
  rcases write_cases hwrite with rfl | ⟨s, hchannel, rfl⟩ |
    ⟨spot, serial, access, offset, start, old, permissions, hchannel, -, -, rfl⟩
  · rfl
  · exact apart_setChannel_of_le hrow x _
  · obtain ⟨rfl, -⟩ := h.later row spot serial access hrow (opened?_of_channel? hchannel)
    have hset : (x.setChannel row (.file spot serial access (start + written.length))).apart
        m.channels.length spot = x.apart m.channels.length spot :=
      apart_setChannel_of_le hrow x _
    simp only [apart, Volume.apart_update_self] at hset ⊢
    exact hset

theorem takeAll_apart_of_le (hrow : rows ≤ row) (x : Machine) :
    (x.takeAll row).1.apart rows place = x.apart rows place := by
  simp only [takeAll, consume]
  split
  · exact apart_setChannel_of_le hrow x _
  · split
    · exact apart_setChannel_of_le hrow x _
    · exact apart_setChannel_of_le hrow x _
    · exact apart_setChannel_of_le hrow x _
    · rfl

end Apart

section FreshAt

variable (hfresh : m.FreshAt cwd file place) (h : m.Continues place held x)
  (hrow : row < m.channels.length)
include hfresh h hrow

/-- No row that was there before stands for the new file. -/
theorem contentsOf_of_opened (hopened : x.opened? row = some (place, serial, access)) :
    x.contentsOf place serial = none := by
  have hserial := hfresh.opened_ne ((h.rows row hrow).symm.trans hopened)
  cases hcontents : x.contentsOf place serial with
  | none => rfl
  | some entry =>
      obtain ⟨hfound, rfl⟩ := contentsOf_eq_some_iff.mp hcontents
      rw [h.own] at hfound
      obtain ⟨contents, -, rfl⟩ := Option.map_eq_some_iff.mp hfound
      exact absurd rfl hserial

theorem contentsOf_apart (hopened : x.opened? row = some (spot, serial, access)) :
    (x.apart m.channels.length place).contentsOf spot serial = x.contentsOf spot serial := by
  have hfind : (x.apart m.channels.length place).volume.find? spot =
      if spot = place then none else x.volume.find? spot := x.volume.find?_apart place spot
  by_cases hspot : spot = place
  · subst hspot
    rw [contentsOf_of_opened hfresh h hrow hopened, contentsOf, hfind, if_pos rfl]
    rfl
  · rw [contentsOf, hfind, if_neg hspot]
    rfl

/-- What is written to a row that was there before is written apart from the new file. -/
theorem write_apart (written : Bytes) :
    (x.apart m.channels.length place).write row written =
      (x.write row written).map (·.apart m.channels.length place) := by
  have hchannel := channel?_apart hrow x place
  cases hc : x.channel? row with
  | none => simp [write, hchannel, hc, Except.map]
  | some channel =>
      rw [hc] at hchannel
      cases channel with
      | closed | directory | tape => simp [write, hchannel, hc, Except.map, Channel.forgetEnd]
      | stream s =>
          simp only [write, hchannel, hc, Option.map_some, Channel.forgetEnd]
          split
          · rfl
          · split
            · rfl
            · simp only [Except.map, apart_setChannel]
              rfl
      | device device =>
          simp only [write, hchannel, hc, Option.map_some, Channel.forgetEnd]
          split
          · rfl
          · cases device <;> rfl
      | file spot serial access offset =>
          have hcontents := contentsOf_apart hfresh h hrow (opened?_of_channel? hc)
          cases access with
          | reading => simp [write, hchannel, hc, Except.map, Channel.forgetEnd]
          | writing | appending =>
              simp only [write, hchannel, hc, Option.map_some, Channel.forgetEnd, hcontents]
              split
              · rfl
              · cases hheld : x.contentsOf spot serial with
                | none => rfl
                | some entry =>
                    have hspot : spot ≠ place := by
                      rintro rfl
                      have hnone := contentsOf_of_opened hfresh h hrow (opened?_of_channel? hc)
                      simp [hnone] at hheld
                    obtain ⟨number, node⟩ := entry
                    cases node with
                    | file contents permissions =>
                        simp only [Except.map, apart, setChannel, List.take_set, List.map_set,
                          Channel.forgetEnd, Volume.apart_update _ hspot]
                    | program | directory | link | device => rfl

theorem writeOrSkip_apart (written : Bytes) :
    (x.writeOrSkip row written).apart m.channels.length place =
      (x.apart m.channels.length place).writeOrSkip row written := by
  simp only [writeOrSkip, write_apart hfresh h hrow]
  cases x.write row written <;> rfl

/-- What can be read from a row that was there before is apart from the new file. -/
theorem unread_apart : (x.apart m.channels.length place).unread row = x.unread row := by
  have hchannel := channel?_apart hrow x place
  cases hc : x.channel? row with
  | none => simp [unread, hchannel, hc]
  | some channel =>
      rw [hc] at hchannel
      cases channel with
      | closed | directory | tape | device => simp [unread, hchannel, hc, Channel.forgetEnd]
      | stream s =>
          simp only [unread, hchannel, hc, Option.map_some, Channel.forgetEnd]
          rfl
      | file spot serial access offset =>
          have hcontents := contentsOf_apart hfresh h hrow (opened?_of_channel? hc)
          cases access <;> simp [unread, hchannel, hc, Channel.forgetEnd, hcontents]

/-- Reading a row that was there before to its end can be done apart from the new file. -/
theorem takeAll_apart :
    (x.takeAll row).1.apart m.channels.length place =
      ((x.apart m.channels.length place).takeAll row).1.apart m.channels.length place := by
  have hchannel := channel?_apart hrow x place
  simp only [takeAll, unread_apart hfresh h hrow, consume]
  cases hc : x.channel? row with
  | none => simp [hchannel, hc, apart_apart]
  | some channel =>
      rw [hc] at hchannel
      cases channel with
      | closed | directory | device => simp [hchannel, Channel.forgetEnd, apart_apart]
      | tape => simp [hchannel, Channel.forgetEnd, apart_setChannel, apart_apart]
      | stream s =>
          simp only [hchannel, Option.map_some, Channel.forgetEnd, apart_setChannel, apart_apart]
          rfl
      | file spot serial access offset =>
          cases access <;>
            simp [hchannel, Channel.forgetEnd, apart_setChannel, apart_apart]

end FreshAt

end Machine

end LineShell
