import LineShell.Proofs.SavedPlace

/-!
# What appending leaves in a file

Appending opens a file as it is, or an empty one where there is none, and puts what is written
behind all that the file holds. It is the opening that may fail; a file that is open takes whatever
is written. So a failed append leaves the machine as it was.

## Implementation notes

A missing file holds nothing, so it makes no difference to `Volume.held?` that opening creates the
file. `Volume.Changes` also covers a file that was opened and not changed yet.
-/

namespace LineShell

namespace Volume

variable {v w : Volume} {place : Location} {cwd : WorkingDirectory} {path : String} {serial : Nat}
  {old contents : Bytes} {permissions : Permissions}

/-- What the file at a path holds; a missing one holds nothing. -/
def held? (v : Volume) (cwd : WorkingDirectory) (path : String) : Option Bytes :=
  match v.lookUp cwd path .follow with
  | .ok (_, ⟨_, .file contents _⟩) => some contents
  | .error (.refused .noEntry) => some []
  | _ => none

theorem changes_self (hpresent : v.find? place = some ⟨serial, .file old permissions⟩) :
    Changes v v place serial old := by
  refine ⟨?_, ⟨permissions, hpresent⟩, fun spot _ => rfl⟩
  intro entry hentry
  obtain rfl := Option.some.inj (hentry.symm.trans hpresent)
  exact ⟨old, permissions, rfl⟩

theorem Changes.held? {destination : Destination} (h : Changes v w place serial contents)
    (hlocate : v.locate cwd path .create = .ok destination) (hplace : destination.IsAt place) :
    w.held? cwd path = some contents := by
  obtain ⟨permissions, hfound⟩ := h.locate_of_create hlocate hplace
  simp [Volume.held?, lookUp, hfound]

/-- A file that is opened for appending has all that was held at the path. -/
theorem changes_of_openForAppending {opening : Opening} (hheld : v.held? cwd path = some old)
    (hopen : v.openForWriting cwd path true = .ok (w, opening)) :
    ∃ place serial, opening = .file place serial ∧ Changes v w place serial old ∧
      ∃ destination, v.locate cwd path .create = .ok destination ∧ destination.IsAt place := by
  rcases openForWriting_cases hopen with ⟨place, hlocate, rfl, rfl⟩ |
    ⟨place, serial, contents, permissions, hlocate, hsame, rfl⟩ |
    ⟨place, serial, device, hlocate, -, -⟩
  · have hmissing := locate_follow_of_create hlocate ⟨rfl, rfl⟩
    have hnothing : v.held? cwd path = some [] := by
      simp only [held?, lookUp, hmissing]
      rfl
    obtain rfl := Option.some.inj (hnothing.symm.trans hheld)
    exact ⟨place, _, rfl, changes_create (agrees_of_locate hlocate), _, hlocate, rfl, rfl⟩
  · obtain rfl : w = v := hsame
    have hfound := locate_follow_of_create hlocate ⟨rfl, rfl⟩
    obtain rfl : contents = old := by simpa [held?, lookUp, hfound] using hheld
    exact ⟨place, serial, rfl, changes_self (agrees_of_locate hlocate), _, hlocate, rfl, rfl⟩
  · have hfound := locate_follow_of_create hlocate ⟨rfl, rfl⟩
    simp [held?, lookUp, hfound] at hheld

end Volume

namespace Machine

variable {v : Volume} {m : Machine} {place : Location} {serial row offset : Nat} {old : Bytes}
  {cwd : WorkingDirectory} {path : String}

/-- Opening a file for appending fails, or adds a channel to a file with all that was held. -/
theorem openFile_cases (hheld : m.volume.held? cwd path = some old) :
    (∃ fault, m.openFile cwd path true = .error fault) ∨
      ∃ opened place serial, m.openFile cwd path true = .ok (opened, m.channels.length) ∧
        opened.channel? m.channels.length = some (.file place serial .appending 0) ∧
        m.volume.Changes opened.volume place serial old ∧
        ∃ destination, m.volume.locate cwd path .create = .ok destination ∧
          destination.IsAt place := by
  cases hopen : m.volume.openForWriting cwd path true with
  | error fault => exact .inl ⟨fault, by simp [openFile, hopen]⟩
  | ok pair =>
      obtain ⟨volume, opening⟩ := pair
      obtain ⟨place, serial, rfl, hchanges, hleads⟩ :=
        Volume.changes_of_openForAppending hheld hopen
      have hopened : m.openFile cwd path true =
          .ok ({ m with volume := volume }.addChannel (.file place serial .appending 0)) := by
        simp [openFile, hopen]
      exact .inr ⟨_, place, serial, hopened, by simp [channel?], hchanges, hleads⟩

/-- A file that is open for appending takes whatever is written, behind all that it holds. -/
theorem exists_write_of_appending (h : v.Changes m.volume place serial old)
    (hrow : m.channel? row = some (.file place serial .appending offset)) (written : Bytes) :
    ∃ after, m.write row written = .ok after ∧
      v.Changes after.volume place serial (old ++ written) := by
  obtain ⟨permissions, hafter⟩ := h.after
  have hcontents : m.contentsOf place serial = some ⟨serial, .file old permissions⟩ := by
    simp [contentsOf, hafter]
  have hover : writeOver old old.length written = old ++ written := by
    simp [writeOver]
  cases written with
  | nil => exact ⟨m, by simp [write, hrow], by simpa using h⟩
  | cons octet rest =>
      simp only [write, hrow, hcontents, List.isEmpty_cons, Bool.false_eq_true, if_false, if_true,
        hover]
      exact ⟨_, rfl, h.update hafter⟩

end Machine

namespace History

variable {m : Machine} {cwd : WorkingDirectory} {path : String} {old : Bytes}

/-- The lines that are not in the history file yet are put behind what the file holds, or nothing
changes at all. -/
theorem appendTo_cases (h : History) (hheld : m.volume.held? cwd path = some old) :
    (∃ fault, h.appendTo m cwd path = (m, .error fault)) ∨
      ∃ after, h.appendTo m cwd path = (after, .ok { h with persisted := h.lines.length }) ∧
        after.volume.held? cwd path =
          some (old ++ (h.lines.drop h.persisted).flatMap fun line => octets (line ++ "\n")) := by
  rcases Machine.openFile_cases hheld with ⟨fault, hopened⟩ |
    ⟨opened, place, serial, hopened, hrow, hchanges, destination, hlocate, hplace⟩
  · exact .inl ⟨fault, by simp only [appendTo, writeFrom, hopened]⟩
  · obtain ⟨after, hwrite, hafter⟩ := Machine.exists_write_of_appending hchanges hrow
      (octets (fileText (h.lines.drop h.persisted)))
    rw [octets_fileText] at hafter
    refine .inr ⟨after.closeFrom m.channels.length, ?_, hafter.held? hlocate hplace⟩
    simp only [appendTo, writeFrom, hopened, Machine.print, hwrite]

end History

end LineShell
