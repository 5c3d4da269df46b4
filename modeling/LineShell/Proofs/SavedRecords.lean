import LineShell.Proofs.JoinedPaths
import LineShell.Proofs.ReachableHistories
import LineShell.Proofs.ReadingCharacters
import LineShell.Proofs.SavedPlace
import Mathlib.Data.List.Basic

/-!
# What is read back from a saved history

A line is written as it is, with a line feed behind it. It is read back as its pieces between line
feeds, each without a carriage return at its end, and blank pieces are not recorded. So saving and
loading are inverse exactly on the lines without a line feed and without a carriage return at the
end.

## Implementation notes

`recordsFrom_append` reads one line from the middle on, so the induction is on what is left of it.
That lines which come back are of the right form is shown by counting: there are as many pieces as
lines, so none of them is dropped as blank.
-/

namespace LineShell

namespace Volume

variable {v : Volume} {place : Location} {cwd : WorkingDirectory} {path text : String}

/-- A file with a text is read as this text, unless it may not be read. -/
theorem readText_of_file? (hfile : v.file? cwd path = some (place, octets text))
    (hread : v.readFile cwd path ≠ .error (.refused .accessDenied)) :
    v.readText cwd path = .ok text := by
  simp only [file?] at hfile
  split at hfile
  · rename_i spot serial contents permissions hlook
    obtain ⟨-, rfl⟩ := Prod.mk.inj (Option.some.inj hfile)
    simp only [readFile, hlook] at hread
    split at hread
    · rename_i hmay
      simp only [readText, readFile, hlook, hmay, if_true, Utf8.decode_octets]
    · exact absurd rfl hread
  · simp at hfile

end Volume

namespace History

variable {h kept : History} {m after : Machine} {cwd : WorkingDirectory} {path line : String}

/-- What is read back of a line that was written. -/
def pieces (line : String) : List String :=
  (cutAt '\n' line.toList).map fun piece => String.ofList (dropReturn piece)

/-- A line is read as its pieces, also when its first characters have been read. -/
theorem recordsFrom_append {begun : List Char} (hbegun : '\n' ∉ begun)
    (characters rest : List Char) :
    recordsFrom begun (characters ++ '\n' :: rest) =
      pieces (String.ofList (begun.reverse ++ characters)) ++ recordsFrom [] rest := by
  simp only [pieces, String.toList_ofList]
  induction characters generalizing begun with
  | nil => simp [recordsFrom, cutAt_of_not_mem, hbegun]
  | cons c more ih =>
      rw [List.cons_append, recordsFrom]
      split
      · rename_i hfeed
        have hread := ih (List.not_mem_nil (a := '\n'))
        have hfirst : '\n' ∉ begun.reverse := by rwa [List.mem_reverse]
        rw [hread, hfeed, cutAt_append, cutAt_of_not_mem hfirst]
        rfl
      · rename_i hother
        have hnext : '\n' ∉ c :: begun := by simp [hbegun, Ne.symm hother]
        simpa using ih hnext

/-- The records of a history file are the pieces of its lines. -/
theorem records_fileText (lines : List String) :
    records (fileText lines) = lines.flatMap pieces := by
  rw [records, toList_fileText]
  induction lines with
  | nil => rfl
  | cons line rest ih =>
      rw [List.flatMap_cons, List.append_assoc, List.singleton_append,
        recordsFrom_append List.not_mem_nil, ih]
      simp

/-! ## Lines that are read back as they are -/

theorem not_mem_dropReturn {c : Char} {text : List Char} (hnot : c ∉ text) :
    c ∉ dropReturn text := by
  rw [dropReturn]
  split
  · exact fun hmem => hnot ((List.dropLast_sublist text).subset hmem)
  · exact hnot

/-- No piece has a line feed. -/
theorem not_mem_of_mem_pieces {piece : String} (hpiece : piece ∈ pieces line) :
    '\n' ∉ piece.toList := by
  obtain ⟨part, hpart, rfl⟩ := List.mem_map.mp hpiece
  rw [String.toList_ofList]
  exact not_mem_dropReturn (not_mem_of_mem_cutAt hpart)

/-- Lines without line feeds are read back without the carriage returns at their ends. -/
theorem flatMap_pieces {lines : List String} (hfeed : ∀ line ∈ lines, '\n' ∉ line.toList) :
    lines.flatMap pieces = lines.map fun line => String.ofList (dropReturn line.toList) := by
  rw [List.map_eq_flatMap]
  apply List.flatMap_congr
  intro line hline
  rw [pieces, cutAt_of_not_mem (hfeed line hline), List.map_singleton]

theorem dropReturn_eq_self_iff {text : List Char} :
    dropReturn text = text ↔ text.getLast? ≠ some '\r' := by
  rw [dropReturn]
  split
  · rename_i hreturn
    have hne : text ≠ [] := by
      rintro rfl
      simp at hreturn
    have hpos := List.length_pos_iff.mpr hne
    refine iff_of_false (fun hsame => ?_) (fun hother => hother hreturn)
    have hshort := congrArg List.length hsame
    rw [List.length_dropLast] at hshort
    omega
  · rename_i hother
    exact iff_of_true rfl hother

/-- Lines that are not blank are read back as they are exactly if no line has a line feed and none
ends in a carriage return. -/
theorem recorded_pieces_eq_iff {lines : List String}
    (hvisible : ∀ line ∈ lines, isBlank line = false) :
    recorded (lines.flatMap pieces) = lines ↔
      ∀ line ∈ lines, '\n' ∉ line.toList ∧ line.toList.getLast? ≠ some '\r' := by
  have hsame_iff (line : String) :
      String.ofList (dropReturn line.toList) = line ↔ line.toList.getLast? ≠ some '\r' := by
    rw [← dropReturn_eq_self_iff, ← String.toList_inj, String.toList_ofList]
  constructor
  · intro hback
    have hfeed (line : String) (hline : line ∈ lines) : '\n' ∉ line.toList := by
      rw [← hback] at hline
      obtain ⟨written, -, hpiece⟩ := List.mem_flatMap.mp (List.mem_filter.mp hline).1
      exact not_mem_of_mem_pieces hpiece
    have hpieces := flatMap_pieces hfeed
    -- There are as many pieces as lines, and so many come back, so none is dropped.
    have hall : recorded (lines.flatMap pieces) = lines.flatMap pieces := by
      apply List.filter_sublist.eq_of_length
      rw [← recorded, hback, hpieces, List.length_map]
    rw [hback, hpieces] at hall
    intro line hline
    have hkept := List.map_inj_left.mp (hall.symm.trans (List.map_id lines).symm) line hline
    exact ⟨hfeed line hline, (hsame_iff line).mp hkept⟩
  · intro hform
    have hkept : (lines.map fun line => String.ofList (dropReturn line.toList)) = lines := by
      rw [List.map_congr_left fun line hline => (hsame_iff line).mpr (hform line hline).2]
      exact List.map_id lines
    rw [flatMap_pieces fun line hline => (hform line hline).1, hkept]
    exact List.filter_eq_self.mpr fun line hline => by simp [hvisible line hline]

/-! ## Saving and loading -/

/-- A history is read back from a path as the pieces of its lines that are not blank. These are its
lines exactly if none of them has a line feed or a carriage return at its end. -/
def ReadsBack (h : History) (volume : Volume) (cwd : WorkingDirectory) (path : String) : Prop :=
  ∃ loaded, History.empty.load volume cwd path = .ok loaded ∧
    loaded.lines = recorded (h.lines.flatMap pieces) ∧
    (loaded.lines = h.lines ↔
      ∀ line ∈ h.lines, '\n' ∉ line.toList ∧ line.toList.getLast? ≠ some '\r')

/-- A history that was saved to a file, no device, is read back from there if the file may be
read. -/
theorem readsBack_of_save (hreach : Reachable h)
    (hdevice : m.volume.opensDevice cwd path = false)
    (hsave : h.save m cwd path = (after, .ok kept))
    (hread : after.volume.readFile cwd path ≠ .error (.refused .accessDenied)) :
    h.ReadsBack after.volume cwd path := by
  obtain ⟨place, hplace, -⟩ := exists_place_of_save hdevice hsave
  have hfile := hplace cwd (.inr rfl)
  rw [← octets_fileText] at hfile
  have htext := Volume.readText_of_file? hfile hread
  obtain ⟨loaded, hload⟩ :
      ∃ loaded, History.empty.load after.volume cwd path = .ok loaded := by
    simp only [load, htext]
    exact ⟨_, rfl⟩
  have hlines : loaded.lines = recorded (h.lines.flatMap pieces) := by
    rw [lines_load hload]
    simp only [recordsAt, htext, records_fileText]
    rfl
  refine ⟨loaded, hload, hlines, ?_⟩
  rw [hlines]
  exact recorded_pieces_eq_iff hreach.wellFormed.not_blank

/-- A history with lines of both kinds. -/
def mixed : History := ⟨["ls", "a\r", "b\n \nc"], 3, 0⟩

/-- Lines that are not read back as they are. -/
theorem readsBack_of_save_of_mixed :
    ∃ after loaded, mixed.save (holding "d" .newDirectory) .root "/d/h" =
        (after, .ok { mixed with persisted := 3 }) ∧
      History.empty.load after.volume .root "/d/h" = .ok loaded ∧
      loaded.lines = ["ls", "a", "b", "c"] := by
  have hreach : Reachable mixed :=
    ((Reachable.empty.perform (.add "ls") .root (holding "d" .newDirectory)).perform
      (.add "a\r") .root (holding "d" .newDirectory)).perform
      (.add "b\n \nc") .root (holding "d" .newDirectory)
  have hsave : (mixed.save (holding "d" .newDirectory) .root "/d/h").2 =
      .ok { mixed with persisted := 3 } := by
    decide +kernel
  obtain ⟨loaded, hload, hlines, -⟩ := readsBack_of_save hreach (by decide +kernel)
    (Prod.ext rfl hsave) (by decide +kernel)
  refine ⟨_, loaded, Prod.ext rfl hsave, hload, hlines.trans ?_⟩
  decide +kernel

/-- A device takes what is saved and keeps nothing, so nothing is read back. A file that may be
written but not read has the lines, but it cannot be loaded. -/
theorem not_forall_readsBack_of_save :
    (¬ ∀ (h kept : History) (m after : Machine) (cwd : WorkingDirectory) (path : String),
      Reachable h → h.save m cwd path = (after, .ok kept) → h.ReadsBack after.volume cwd path) ∧
    ¬ ∀ (h kept : History) (m after : Machine) (cwd : WorkingDirectory) (path : String),
      Reachable h → m.volume.opensDevice cwd path = false →
      h.save m cwd path = (after, .ok kept) → h.ReadsBack after.volume cwd path := by
  have hreach : Reachable ⟨["ls"], 1, 0⟩ :=
    Reachable.empty.perform (.add "ls") .root (holding "null" (.device .null))
  constructor
  · intro hback
    have hsave : ((⟨["ls"], 1, 0⟩ : History).save (holding "null" (.device .null)) .root
        "/null").2 = .ok ⟨["ls"], 1, 1⟩ := by
      decide +kernel
    obtain ⟨loaded, hload, hlines, -⟩ := hback _ _ _ _ _ _ hreach (Prod.ext rfl hsave)
    have hnone : History.empty.load ((⟨["ls"], 1, 0⟩ : History).save
        (holding "null" (.device .null)) .root "/null").1.volume .root "/null" = .ok .empty := by
      decide +kernel
    obtain rfl := Except.ok.inj (hload.symm.trans hnone)
    revert hlines
    decide +kernel
  · intro hback
    have hsave : ((⟨["ls"], 1, 0⟩ : History).save
        (holding "h" (.file [] ⟨false, true, false, false⟩)) .root "/h").2 =
          .ok ⟨["ls"], 1, 1⟩ := by
      decide +kernel
    obtain ⟨loaded, hload, -, -⟩ :=
      hback _ _ _ _ _ _ hreach (by decide +kernel) (Prod.ext rfl hsave)
    have hdenied : History.empty.load ((⟨["ls"], 1, 0⟩ : History).save
        (holding "h" (.file [] ⟨false, true, false, false⟩)) .root "/h").1.volume .root "/h" =
          .error (.refused .accessDenied) := by
      decide +kernel
    simp [hdenied] at hload

end History

end LineShell
