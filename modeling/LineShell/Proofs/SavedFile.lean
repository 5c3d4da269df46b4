import LineShell.History.File
import LineShell.Proofs.PathsAfterWriting

/-!
# A saved file is found at its path

Opening a file for writing leaves an empty file at the place that the path leads to, and what is
written next is all that the file holds. So the path of a history that was saved leads to a file
with all of its lines, unless it leads to a device, which keeps nothing.
-/

namespace LineShell

namespace Volume

variable {v w : Volume} {place : Location} {cwd : WorkingDirectory} {path : String}

/-- The contents of the file that a path leads to. -/
def contents? (v : Volume) (path : String) : Option Bytes :=
  match v.lookUp .root path .follow with
  | .ok (_, ⟨_, .file contents _⟩) => some contents
  | _ => none

/-- The device that a path leads to. -/
def device? (v : Volume) (path : String) : Option Device :=
  match v.lookUp .root path .follow with
  | .ok (_, ⟨_, .device device⟩) => some device
  | _ => none

/-- Whether it is a device that is opened at a path for writing. -/
def opensDevice (v : Volume) (cwd : WorkingDirectory) (path : String) : Bool :=
  match v.openForWriting cwd path false with
  | .ok (_, .device _) => true
  | _ => false

/-- A file opened for writing is a new one, one that was there, or a device. One that was there is
emptied unless it is opened for appending. -/
theorem openForWriting_cases {append : Bool} {opening : Opening}
    (hopen : v.openForWriting cwd path append = .ok (w, opening)) :
    (∃ place, v.locate cwd path .create = .ok (.vacant place false) ∧
      w = v.create place (.file [] .ofNewFile) ∧ opening = .file place v.free) ∨
    (∃ place serial old permissions,
      v.locate cwd path .create = .ok (.present place ⟨serial, .file old permissions⟩ false) ∧
      w = (if append then v else v.put place ⟨serial, .file [] permissions⟩) ∧
      opening = .file place serial) ∨
    ∃ place serial device,
      v.locate cwd path .create = .ok (.present place ⟨serial, .device device⟩ false) ∧
      w = v ∧ opening = .device device := by
  simp only [openForWriting] at hopen
  split at hopen
  · simp at hopen
  · simp at hopen
  · rename_i place slash hlocate
    cases slash with
    | true => simp at hopen
    | false =>
        simp only [Bool.false_eq_true, if_false] at hopen
        split at hopen
        · simp only [Except.ok.injEq, Prod.mk.injEq] at hopen
          obtain ⟨rfl, rfl⟩ := hopen
          exact .inl ⟨place, hlocate, rfl, rfl⟩
        · simp at hopen
  · rename_i place entry slash hlocate
    cases slash with
    | true => simp at hopen
    | false =>
        obtain ⟨serial, node⟩ := entry
        cases node with
        | directory => simp at hopen
        | link target => simp at hopen
        | program name => simp at hopen
        | device device =>
            simp only [Bool.false_eq_true, if_false, Except.ok.injEq, Prod.mk.injEq] at hopen
            obtain ⟨rfl, rfl⟩ := hopen
            exact .inr (.inr ⟨place, serial, device, hlocate, rfl, rfl⟩)
        | file old permissions =>
            simp only [Bool.false_eq_true, if_false] at hopen
            split at hopen
            · simp only [Except.ok.injEq, Prod.mk.injEq] at hopen
              obtain ⟨rfl, rfl⟩ := hopen
              exact .inr (.inl ⟨place, serial, old, permissions, hlocate, rfl, rfl⟩)
            · simp at hopen

theorem changes_create (hvacant : v.find? place = none) :
    Changes v (v.create place (.file [] .ofNewFile)) place v.free [] := by
  refine ⟨?_, ⟨.ofNewFile, ?_⟩, ?_⟩
  · intro entry hentry
    simp [hvacant] at hentry
  · rw [find?_create, if_pos rfl]
  · intro spot hspot
    rw [find?_create, if_neg hspot]

theorem changes_put {serial : Nat} {old contents : Bytes} {permissions : Permissions}
    (hpresent : v.find? place = some ⟨serial, .file old permissions⟩) :
    Changes v (v.put place ⟨serial, .file contents permissions⟩) place serial contents := by
  refine ⟨?_, ⟨permissions, ?_⟩, ?_⟩
  · intro entry hentry
    obtain rfl := Option.some.inj (hentry.symm.trans hpresent)
    exact ⟨old, permissions, rfl⟩
  · rw [find?_put, if_pos rfl]
  · intro spot hspot
    rw [find?_put, if_neg hspot]

/-- Opening a file for writing puts an empty file in the place that the path leads to. -/
theorem changes_of_openForWriting {serial : Nat}
    (hopen : v.openForWriting cwd path false = .ok (w, .file place serial)) :
    Changes v w place serial [] ∧
      ∃ destination, v.locate cwd path .create = .ok destination ∧ destination.IsAt place := by
  rcases openForWriting_cases hopen with ⟨spot, hlocate, rfl, hopening⟩ |
    ⟨spot, number, old, permissions, hlocate, rfl, hopening⟩ | ⟨_, _, _, _, _, hopening⟩
  · obtain ⟨rfl, rfl⟩ := Opening.file.inj hopening
    exact ⟨changes_create (agrees_of_locate hlocate), _, hlocate, rfl, rfl⟩
  · obtain ⟨rfl, rfl⟩ := Opening.file.inj hopening
    exact ⟨changes_put (agrees_of_locate hlocate), _, hlocate, rfl, rfl⟩
  · simp at hopening

/-- A path at which a device is opened leads to this device. -/
theorem device?_of_openForWriting {device : Device} (habsolute : Path.isAbsolute path = true)
    (hopen : v.openForWriting cwd path false = .ok (w, .device device)) :
    v.device? path = some device := by
  rcases openForWriting_cases hopen with ⟨_, _, _, hopening⟩ | ⟨_, _, _, _, _, _, hopening⟩ |
    ⟨spot, number, found, hlocate, rfl, hopening⟩
  · simp at hopening
  · simp at hopening
  · obtain rfl := Opening.device.inj hopening
    obtain ⟨hnul, hempty, hshort, hresolve⟩ := (locate_eq_ok_iff habsolute).mp hlocate
    have hplace : Destination.IsAt spot (.present spot ⟨number, .device device⟩ false) :=
      ⟨rfl, rfl⟩
    have hfollow := resolve_follow_of_create hresolve hplace
    have hlook : w.locate .root path .follow =
        .ok (.present spot ⟨number, .device device⟩ false) :=
      (locate_eq_ok_iff habsolute).mpr ⟨hnul, hempty, hshort, hfollow⟩
    simp [device?, lookUp, hlook]

/-- No device is opened at an absolute path that leads to none. -/
theorem opensDevice_of_device?_none (habsolute : Path.isAbsolute path = true)
    (hdevice : v.device? path = none) : v.opensDevice cwd path = false := by
  simp only [opensDevice]
  split
  · rename_i device hopen
    rw [device?_of_openForWriting habsolute hopen] at hdevice
    simp at hdevice
  · rfl

theorem find?_update (v : Volume) (place other : Location) (node : Node) :
    (v.update place node).find? other =
      if other = place then (v.find? place).map fun entry => { entry with node := node }
      else v.find? other := by
  simp only [update]
  split
  · rename_i entry hentry
    rw [find?_put, hentry]
    rfl
  · rename_i hnone
    split
    · rename_i hother
      rw [hother, hnone]
      rfl
    · rfl

/-- Replacing the contents of the new file changes nothing else. -/
theorem Changes.update {serial : Nat} {contents written : Bytes} {permissions : Permissions}
    (h : Changes v w place serial contents)
    (hafter : w.find? place = some ⟨serial, .file contents permissions⟩) :
    Changes v (w.update place (.file written permissions)) place serial written := by
  refine ⟨h.before, ⟨permissions, ?_⟩, ?_⟩
  · rw [find?_update, if_pos rfl, hafter]
    rfl
  · intro other hother
    rw [find?_update, if_neg hother]
    exact h.others other hother

/-- The new file is found at an absolute path at which it was opened. -/
theorem Changes.contents? {serial : Nat} {contents : Bytes} {destination : Destination}
    (h : Changes v w place serial contents) (habsolute : Path.isAbsolute path = true)
    (hlocate : v.locate cwd path .create = .ok destination) (hplace : destination.IsAt place) :
    w.contents? path = some contents := by
  obtain ⟨permissions, hfound⟩ : ∃ permissions, w.locate .root path .follow =
      .ok (.present place ⟨serial, .file contents permissions⟩ false) :=
    h.locate habsolute hlocate hplace
  simp [Volume.contents?, lookUp, hfound]

end Volume

namespace Machine

variable {m opened written : Machine}

/-- Writing into an empty file that has just been opened leaves what was written in it. -/
theorem changes_of_write {v : Volume} {place : Location} {serial row : Nat} {text : Bytes}
    (h : v.Changes opened.volume place serial [])
    (hrow : opened.channel? row = some (.file place serial .writing 0))
    (hwrite : opened.write row text = .ok written) :
    v.Changes written.volume place serial text := by
  obtain ⟨permissions, hafter⟩ := h.after
  have hcontents : opened.contentsOf place serial = some ⟨serial, .file [] permissions⟩ := by
    simp [contentsOf, hafter]
  cases text with
  | nil =>
      simp only [write, hrow, List.isEmpty_nil, if_true, Except.ok.injEq] at hwrite
      exact hwrite ▸ h
  | cons octet rest =>
      simp [write, hrow, hcontents, writeOver] at hwrite
      rw [← hwrite]
      exact h.update hafter

end Machine

namespace History

variable {h kept : History} {m after : Machine} {cwd : WorkingDirectory} {path : String}

/-- A history file holds every line, followed by a line feed. -/
theorem toList_fileText (lines : List String) :
    (fileText lines).toList = lines.flatMap fun line => line.toList ++ ['\n'] := by
  have hfrom (text : String) :
      (lines.foldl (fun text line => text ++ line ++ "\n") text).toList =
        text.toList ++ lines.flatMap fun line => line.toList ++ ['\n'] := by
    induction lines generalizing text with
    | nil => simp
    | cons line rest ih => simp [ih]
  exact hfrom ""

theorem octets_fileText (lines : List String) :
    octets (fileText lines) = lines.flatMap fun line => octets (line ++ "\n") := by
  simp [octets, toList_fileText, Utf8.encode, List.flatMap_assoc]

/-- A successful save puts a file with all lines in the place that the path leads to, unless it is a
device that is written. -/
theorem changes_of_save (hdevice : m.volume.opensDevice cwd path = false)
    (hsave : h.save m cwd path = (after, .ok kept)) :
    ∃ place serial, m.volume.Changes after.volume place serial (octets (fileText h.lines)) ∧
      ∃ destination, m.volume.locate cwd path .create = .ok destination ∧
        destination.IsAt place := by
  simp only [save, writeFrom, List.drop_zero, Machine.openFile] at hsave
  split at hsave
  · simp at hsave
  · rename_i opened row hopened
    split at hopened
    · simp at hopened
    · rename_i volume place serial hopen
      obtain ⟨hchanges, hleads⟩ := Volume.changes_of_openForWriting hopen
      obtain ⟨rfl, rfl⟩ := Prod.mk.inj (Except.ok.inj hopened)
      split at hsave
      · simp at hsave
      · rename_i written hprint
        obtain ⟨rfl, -⟩ := Prod.mk.inj hsave
        have hwritten := Machine.changes_of_write hchanges (by simp [Machine.channel?]) hprint
        exact ⟨place, serial, hwritten, hleads⟩
    · rename_i volume device hopen
      simp [Volume.opensDevice, hopen] at hdevice

/-- After a successful save an absolute path leads to a file with all lines, unless it leads to a
device. -/
theorem contents?_of_save (habsolute : Path.isAbsolute path = true)
    (hdevice : m.volume.device? path = none) (hsave : h.save m cwd path = (after, .ok kept)) :
    after.volume.contents? path = some (h.lines.flatMap fun line => octets (line ++ "\n")) := by
  rw [← octets_fileText]
  have hopens : m.volume.opensDevice cwd path = false :=
    Volume.opensDevice_of_device?_none habsolute hdevice
  obtain ⟨place, serial, hchanges, destination, hlocate, hplace⟩ := changes_of_save hopens hsave
  exact hchanges.contents? habsolute hlocate hplace

end History

end LineShell
