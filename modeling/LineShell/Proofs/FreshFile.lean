import LineShell.Proofs.AskedPaths
import LineShell.Proofs.UnreadInput

/-!
# A machine with a new file

A file that is created where nothing was has a serial number that nothing on the machine had before.
So whatever is done on the machine in the meantime, no row that was there before stands for this
file, and nothing that could be started before is changed by it.

## Implementation notes

`Machine.Continues` is what reading and writing rows, opening pipes and closing them again leave as
it is: which files the rows stand for, and all of the volume but the new file and the contents of
files that are being changed.
-/

namespace LineShell

/-- The file that a channel stands for, and what it was opened for. -/
def Channel.opened? : Channel → Option (Location × Nat × Access)
  | .file place serial access _ => some (place, serial, access)
  | _ => none

namespace Machine

/-- The file that the channel in a row stands for, and what it was opened for. -/
def opened? (m : Machine) (row : Nat) : Option (Location × Nat × Access) :=
  (m.channel? row).bind Channel.opened?

/-- A path leads to a place where nothing stands yet and a file may be created, and the number that
a new file gets is new. -/
structure FreshAt (m : Machine) (cwd : WorkingDirectory) (file : String) (place : Location) :
    Prop where
  vacant : m.volume.locate cwd file .create = .ok (.vacant place false)
  allowed : m.volume.mayChangeAt place = true
  entries : ∀ row ∈ m.volume.rows, row.2.serial ≠ m.volume.free
  channels : ∀ channel ∈ m.channels, ∀ opened ∈ channel.opened?, opened.2.1 ≠ m.volume.free

/-- A machine after its rows were read and written and others were added, for pipes and for a new
file at a place, if there is one by now. -/
structure Continues (m : Machine) (place : Location) (held : Option Bytes) (x : Machine) :
    Prop where
  length_le : m.channels.length ≤ x.channels.length
  rows : ∀ row, row < m.channels.length → x.opened? row = m.opened? row
  later : ∀ row spot serial access, m.channels.length ≤ row →
    x.opened? row = some (spot, serial, access) → spot = place ∧ serial = m.volume.free
  own : x.volume.find? place =
    held.map fun contents => ⟨m.volume.free, .file contents .ofNewFile⟩
  free : held = none → x.volume.free = m.volume.free
  others : ∀ spot, spot ≠ place → m.volume.AgreeAt m.isBeingChanged x.volume spot

variable {m x : Machine} {cwd : WorkingDirectory} {file : String} {place spot : Location}
  {row other rows serial : Nat} {access : Access} {channel : Channel} {written : Bytes}
  {held : Option Bytes}

theorem opened?_eq_some_iff :
    x.opened? row = some (spot, serial, access) ↔
      ∃ offset, x.channel? row = some (.file spot serial access offset) := by
  unfold opened?
  cases hchannel : x.channel? row with
  | none => simp
  | some channel => cases channel <;> simp [Channel.opened?]

/-- A file is being changed if some row is open for that. -/
theorem isBeingChanged_iff :
    x.isBeingChanged serial = true ↔
      ∃ row spot access, x.opened? row = some (spot, serial, access) ∧ access ≠ .reading := by
  simp only [isBeingChanged, List.any_eq_true, opened?_eq_some_iff]
  constructor
  · rintro ⟨channel, hmem, hchanges⟩
    obtain ⟨row, hrow⟩ := List.mem_iff_getElem?.mp hmem
    cases channel with
    | file spot number access offset =>
        cases access with
        | reading => simp [Channel.changes] at hchanges
        | writing | appending =>
            obtain rfl : number = serial := by simpa [Channel.changes] using hchanges
            exact ⟨row, spot, _, ⟨offset, hrow⟩, by simp⟩
    | stream | tape | device | directory | closed => simp [Channel.changes] at hchanges
  · rintro ⟨row, spot, access, ⟨offset, hrow⟩, haccess⟩
    refine ⟨_, List.mem_of_getElem? hrow, ?_⟩
    cases access with
    | reading => exact absurd rfl haccess
    | writing | appending => simp [Channel.changes]

theorem FreshAt.find?_none (h : m.FreshAt cwd file place) : m.volume.find? place = none :=
  Volume.agrees_of_locate h.vacant

theorem FreshAt.serial_ne (h : m.FreshAt cwd file place) {entry : Entry}
    (hentry : m.volume.find? spot = some entry) : entry.serial ≠ m.volume.free :=
  h.entries _ (Volume.mem_of_lookup hentry)

theorem FreshAt.opened_ne (h : m.FreshAt cwd file place)
    (hrow : m.opened? row = some (spot, serial, access)) : serial ≠ m.volume.free := by
  obtain ⟨offset, hchannel⟩ := opened?_eq_some_iff.mp hrow
  exact h.channels _ (List.mem_of_getElem? hchannel) _ rfl

namespace Continues

theorem refl (h : m.FreshAt cwd file place) : m.Continues place none m where
  length_le := Nat.le_refl _
  rows _ _ := rfl
  later row spot serial access hrow hopened := by
    obtain ⟨offset, hchannel⟩ := opened?_eq_some_iff.mp hopened
    have hlt := (List.getElem?_eq_some_iff.mp hchannel).1
    exact absurd hrow (Nat.not_le_of_lt hlt)
  own := h.find?_none
  free _ := rfl
  others _ _ := rfl

/-- Nothing that was there before stands for the new file. -/
theorem isBeingChanged_eq (h : m.Continues place held x) (hserial : serial ≠ m.volume.free) :
    x.isBeingChanged serial = m.isBeingChanged serial := by
  rw [Bool.eq_iff_iff, isBeingChanged_iff, isBeingChanged_iff]
  constructor
  · rintro ⟨row, spot, access, hopened, haccess⟩
    rcases Nat.lt_or_ge row m.channels.length with hrow | hrow
    · exact ⟨row, spot, access, h.rows row hrow ▸ hopened, haccess⟩
    · exact absurd (h.later row spot serial access hrow hopened).2 hserial
  · rintro ⟨row, spot, access, hopened, haccess⟩
    obtain ⟨offset, hchannel⟩ := opened?_eq_some_iff.mp hopened
    have hrow := (List.getElem?_eq_some_iff.mp hchannel).1
    exact ⟨row, spot, access, (h.rows row hrow).trans hopened, haccess⟩

theorem looksLike (hfresh : m.FreshAt cwd file place) (h : m.Continues place held x) :
    m.LooksLike place x where
  volume :=
    { vacant := hfresh.find?_none
      own := by
        intro entry hentry
        rw [h.own] at hentry
        obtain ⟨contents, -, rfl⟩ := Option.map_eq_some_iff.mp hentry
        rfl
      others := h.others }
  busy _ _ hentry := h.isBeingChanged_eq (hfresh.serial_ne hentry)

end Continues

theorem opened?_setChannel (hsame : channel.opened? = x.opened? row) (other : Nat) :
    (x.setChannel row channel).opened? other = x.opened? other := by
  by_cases hother : other = row
  · subst hother
    rcases Nat.lt_or_ge other x.channels.length with hlt | hle
    · simp [opened?, channel?, setChannel, List.getElem?_set_self hlt, hsame]
    · simp [setChannel, List.set_eq_of_length_le hle]
  · simp [opened?, channel?, setChannel, List.getElem?_set_ne (Ne.symm hother)]

theorem opened?_of_channel? (hchannel : x.channel? row = some channel) :
    x.opened? row = channel.opened? := by
  simp [opened?, hchannel]

namespace Continues

/-- What a row stands for is what counts. -/
theorem setChannel (h : m.Continues place held x) (hsame : channel.opened? = x.opened? row) :
    m.Continues place held (x.setChannel row channel) where
  length_le := by simpa [Machine.setChannel] using h.length_le
  rows other hother := (opened?_setChannel hsame other).trans (h.rows other hother)
  later other spot serial access hother hopened := by
    rw [opened?_setChannel hsame] at hopened
    exact h.later other spot serial access hother hopened
  own := h.own
  free := h.free
  others := h.others

theorem takeAll (h : m.Continues place held x) (row : Nat) :
    m.Continues place held (x.takeAll row).1 := by
  have hconsume (count : Nat) : m.Continues place held (x.consume row count) := by
    simp only [consume]
    split
    case h_1 s hchannel => exact h.setChannel (opened?_of_channel? hchannel).symm
    case h_2 contents offset hchannel => exact h.setChannel (opened?_of_channel? hchannel).symm
    case h_3 spot serial offset hchannel => exact h.setChannel (opened?_of_channel? hchannel).symm
    case h_4 => exact h
  simp only [Machine.takeAll]
  split
  case h_1 s hchannel => exact h.setChannel (opened?_of_channel? hchannel).symm
  case h_2 => exact hconsume _

/-- What is written to an open file that is not the new one is written to one that is being
changed. -/
theorem update (h : m.Continues place held x) {contents old : Bytes} {permissions : Permissions}
    (hopened : x.opened? row = some (spot, serial, access)) (haccess : access ≠ .reading)
    (hfound : x.volume.find? spot = some ⟨serial, .file old permissions⟩) (hspot : spot ≠ place) :
    m.Continues place held
      { x with volume := x.volume.update spot (.file contents permissions) } where
  length_le := h.length_le
  rows := h.rows
  later := h.later
  own := by
    rw [Volume.find?_update, if_neg (Ne.symm hspot)]
    exact h.own
  free hnone := by
    rw [← h.free hnone, Volume.update, hfound]
    rfl
  others other hother := by
    rw [Volume.AgreeAt, ← h.others other hother, Volume.find?_update]
    split
    case isFalse => rfl
    case isTrue hsame =>
      subst hsame
      -- The row was there before, since every later one stands for the new file.
      have hbusy : m.isBeingChanged serial = true := by
        rcases Nat.lt_or_ge row m.channels.length with hrow | hrow
        · exact isBeingChanged_iff.mpr ⟨row, other, access, h.rows row hrow ▸ hopened, haccess⟩
        · exact absurd (h.later row other serial access hrow hopened).1 hother
      simp [hfound, Entry.outline, hbusy]

end Continues

theorem contentsOf_eq_some_iff {entry : Entry} :
    x.contentsOf spot serial = some entry ↔
      x.volume.find? spot = some entry ∧ entry.serial = serial := by
  simp [contentsOf, Option.filter_eq_some_iff]

/-- What writing does: nothing, or it adds to a stream, or it changes an open file. -/
theorem write_cases {after : Machine} (hwrite : x.write row written = .ok after) :
    after = x ∨
    (∃ s, x.channel? row = some (.stream s) ∧
      after = x.setChannel row (.stream (s.write written))) ∨
    ∃ spot serial access offset start old permissions,
      x.channel? row = some (.file spot serial access offset) ∧ access ≠ .reading ∧
      x.contentsOf spot serial = some ⟨serial, .file old permissions⟩ ∧
      after = { x.setChannel row (.file spot serial access (start + written.length)) with
        volume := x.volume.update spot (.file (writeOver old start written) permissions) } := by
  simp only [Machine.write] at hwrite
  split at hwrite
  any_goals simp at hwrite
  rename_i channel hreading hclosed hdirectory htape hfile hrow
  split at hwrite
  · exact .inl (Except.ok.inj hwrite).symm
  · split at hwrite
    case h_1 s =>
      split at hwrite
      · simp at hwrite
      · exact .inr (.inl ⟨s, hrow, (Except.ok.inj hwrite).symm⟩)
    case h_2 => simp at hwrite
    case h_3 => simp at hwrite
    case h_4 spot serial access offset =>
      split at hwrite
      case h_1 number old permissions hcontents =>
        obtain rfl : number = serial := (contentsOf_eq_some_iff.mp hcontents).2
        have haccess : access ≠ .reading := by
          rintro rfl
          exact hfile spot number offset rfl
        exact .inr (.inr ⟨spot, number, access, offset, _, old, permissions, hrow, haccess,
          hcontents, (Except.ok.inj hwrite).symm⟩)
      case h_2 => exact .inl (Except.ok.inj hwrite).symm
    case h_5 => exact .inl (Except.ok.inj hwrite).symm

namespace Continues

/-- Writing to a row that does not stand for the new file. -/
theorem write (h : m.Continues place held x) {after : Machine}
    (hrow : ∀ access, x.opened? row ≠ some (place, m.volume.free, access))
    (hwrite : x.write row written = .ok after) : m.Continues place held after := by
  rcases write_cases hwrite with rfl | ⟨s, hchannel, rfl⟩ |
    ⟨spot, serial, access, offset, start, old, permissions, hchannel, haccess, hcontents, rfl⟩
  · exact h
  · exact h.setChannel (opened?_of_channel? hchannel).symm
  · have hsame : (Channel.file spot serial access (start + written.length)).opened? =
        x.opened? row := (opened?_of_channel? hchannel).symm
    have hopened := (opened?_setChannel hsame row).trans hsame.symm
    have hfound := (contentsOf_eq_some_iff.mp hcontents).1
    have hspot : spot ≠ place := by
      rintro rfl
      have hown := h.own
      rw [hfound] at hown
      obtain ⟨contents, -, hentry⟩ := Option.map_eq_some_iff.mp hown.symm
      obtain ⟨rfl, -⟩ := Entry.mk.inj hentry
      exact hrow access hsame.symm
    exact (h.setChannel hsame).update hopened haccess hfound hspot

theorem writeOrSkip (h : m.Continues place held x)
    (hrow : ∀ access, x.opened? row ≠ some (place, m.volume.free, access)) (written : Bytes) :
    m.Continues place held (x.writeOrSkip row written) := by
  simp only [Machine.writeOrSkip]
  split
  case h_1 after hwrite => exact h.write hrow hwrite
  case h_2 => exact h

/-- Writing to a pipe. -/
theorem writePipe (h : m.Continues place held x) {waiting : Bytes} {after : Machine}
    (hholds : x.Holds row waiting) (hwrite : x.write row written = .ok after) :
    m.Continues place held after := by
  obtain ⟨s, hchannel, -⟩ := hholds
  apply h.write _ hwrite
  intro access
  rw [opened?_of_channel? hchannel]
  simp [Channel.opened?]

/-- No row that was there before stands for the new file. -/
theorem opened?_ne (hfresh : m.FreshAt cwd file place) (h : m.Continues place held x)
    (hrow : row < m.channels.length) (access : Access) :
    x.opened? row ≠ some (place, m.volume.free, access) := by
  intro hopened
  exact hfresh.opened_ne ((h.rows row hrow).symm.trans hopened) rfl

end Continues

theorem opened?_addChannel (x : Machine) (channel : Channel) (row : Nat) :
    (x.addChannel channel).1.opened? row =
      if row = x.channels.length then channel.opened? else x.opened? row := by
  simp only [opened?, channel?, addChannel]
  rcases Nat.lt_trichotomy row x.channels.length with hlt | rfl | hgt
  · rw [List.getElem?_append_left hlt, if_neg (Nat.ne_of_lt hlt)]
  · simp
  · rw [List.getElem?_eq_none (by simpa using Nat.succ_le_of_lt hgt), if_neg (Nat.ne_of_gt hgt),
      List.getElem?_eq_none (Nat.le_of_lt hgt)]

namespace Continues

/-- A channel is added that stands for no file, or for the new one. -/
theorem addChannel (h : m.Continues place held x)
    (hnew : ∀ spot serial access, channel.opened? = some (spot, serial, access) →
      spot = place ∧ serial = m.volume.free) :
    m.Continues place held (x.addChannel channel).1 where
  length_le := by
    have hle := h.length_le
    simp only [Machine.addChannel, List.length_append]
    omega
  rows row hrow := by
    have hle := h.length_le
    rw [opened?_addChannel, if_neg (by omega)]
    exact h.rows row hrow
  later row spot serial access hrow hopened := by
    rw [opened?_addChannel] at hopened
    split at hopened
    · exact hnew spot serial access hopened
    · exact h.later row spot serial access hrow hopened
  own := h.own
  free := h.free
  others := h.others

theorem addPipe (h : m.Continues place held x) :
    m.Continues place held (x.addChannel (.stream .pipe)).1 :=
  h.addChannel fun _ _ _ hopened => by simp [Channel.opened?] at hopened

/-- The new file is created and opened in a new row. -/
theorem create (h : m.Continues place none x) (access : Access) :
    m.Continues place (some [])
      ({ x with volume := x.volume.create place (.file [] .ofNewFile) }.addChannel
        (.file place x.volume.free access 0)).1 := by
  have hfree := h.free rfl
  have hcreated : m.Continues place (some [])
      { x with volume := x.volume.create place (.file [] .ofNewFile) } :=
    { length_le := h.length_le
      rows := h.rows
      later := h.later
      own := by
        rw [Volume.find?_create, if_pos rfl, hfree]
        rfl
      free := by simp
      others := by
        intro spot hspot
        rw [Volume.AgreeAt, Volume.find?_create, if_neg hspot]
        exact h.others spot hspot }
  apply hcreated.addChannel
  intro spot serial access hopened
  obtain ⟨rfl, rfl, -⟩ : place = spot ∧ x.volume.free = serial ∧ _ = access := by
    simpa [Channel.opened?] using hopened
  exact ⟨rfl, hfree⟩

/-- The new file takes whatever is written. -/
theorem exists_write_new (h : m.Continues place (some []) x) (haccess : access ≠ .reading)
    (hrow : x.channel? row = some (.file place m.volume.free access 0)) (written : Bytes) :
    ∃ after, x.write row written = .ok after ∧ m.Continues place (some written) after := by
  have hown : x.volume.find? place = some ⟨m.volume.free, .file [] .ofNewFile⟩ := h.own
  have hcontents : x.contentsOf place m.volume.free =
      some ⟨m.volume.free, .file [] .ofNewFile⟩ := contentsOf_eq_some_iff.mpr ⟨hown, rfl⟩
  cases written with
  | nil =>
      refine ⟨x, ?_, h⟩
      cases access with
      | reading => exact absurd rfl haccess
      | writing | appending => simp [Machine.write, hrow]
  | cons octet rest =>
      have hset : m.Continues place (some [])
          (x.setChannel row (.file place m.volume.free access (octet :: rest).length)) :=
        h.setChannel (opened?_of_channel? hrow).symm
      refine ⟨{ x.setChannel row (.file place m.volume.free access (octet :: rest).length) with
        volume := x.volume.update place (.file (octet :: rest) .ofNewFile) }, ?_, ?_⟩
      · cases access with
        | reading => exact absurd rfl haccess
        | writing | appending => simp [Machine.write, hrow, hcontents, writeOver]
      · refine ⟨hset.length_le, hset.rows, hset.later, ?_, by simp, ?_⟩
        · simp only [Volume.find?_update, if_true, hown]
          rfl
        · intro spot hspot
          rw [Volume.AgreeAt, Volume.find?_update, if_neg hspot]
          exact h.others spot hspot

theorem closeFrom (h : m.Continues place held x) {first : Nat}
    (hfirst : m.channels.length ≤ first) : m.Continues place held (x.closeFrom first) := by
  have hopened (row : Nat) :
      (x.closeFrom first).opened? row = if row < first then x.opened? row else none := by
    simp only [opened?, channel?, Machine.closeFrom, List.getElem?_take]
    split <;> rfl
  refine ⟨?_, ?_, ?_, h.own, h.free, h.others⟩
  · have hle := h.length_le
    simp only [Machine.closeFrom, List.length_take]
    omega
  · intro row hrow
    rw [hopened, if_pos (Nat.lt_of_lt_of_le hrow hfirst), h.rows row hrow]
  · intro row spot serial access hrow hfile
    rw [hopened] at hfile
    split at hfile
    · exact h.later row spot serial access hrow hfile
    · simp at hfile

theorem cutIfStarved (h : m.Continues place held x) (input output : Nat) :
    m.Continues place held (x.cutIfStarved input output) := by
  simp only [Machine.cutIfStarved, cut]
  split
  · split
    case h_1 s hchannel => exact h.setChannel (opened?_of_channel? hchannel).symm
    case h_2 => exact h
  · exact h

theorem withPatience (h : m.Continues place held x) (patience : Nat) :
    m.Continues place held { x with patience := patience } :=
  ⟨h.length_le, h.rows, h.later, h.own, h.free, h.others⟩

/-- It makes no difference whether readers have come to the end. -/
theorem of_forgetEnds (h : m.Continues place held x) {y : Machine}
    (hsame : y.forgetEnds = x.forgetEnds) : m.Continues place held y := by
  have hforget (x : Machine) (row : Nat) : x.forgetEnds.opened? row = x.opened? row := by
    simp only [opened?, channel?, forgetEnds, List.getElem?_map]
    cases x.channels[row]? with
    | none => rfl
    | some channel => cases channel <;> rfl
  have hopened (row : Nat) : y.opened? row = x.opened? row := by
    rw [← hforget y, hsame, hforget]
  have hlength : y.channels.length = x.channels.length := by
    simpa [forgetEnds] using congrArg (fun z : Machine => z.channels.length) hsame
  have hvolume : y.volume = x.volume := by
    show y.forgetEnds.volume = x.forgetEnds.volume
    rw [hsame]
  refine ⟨hlength ▸ h.length_le, ?_, ?_, hvolume ▸ h.own, hvolume ▸ h.free, hvolume ▸ h.others⟩
  · intro row hrow
    rw [hopened, h.rows row hrow]
  · intro row spot serial access hrow hfile
    exact h.later row spot serial access hrow (hopened row ▸ hfile)

end Continues

end Machine

end LineShell
