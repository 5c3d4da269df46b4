import LineShell.Proofs.AppendedFile
import LineShell.Proofs.FreshFile
import LineShell.Proofs.SavedRecords

/-!
# What is read back after an append

Appending puts lines behind whatever a file holds. If the last line of the file does not end, the
first line that is appended goes on with it, and both are read back as one. Otherwise the records of
the file are read back, and the lines that were appended behind them.

## Implementation notes

A text is a closed one, in which every line ends, with a line behind it that was begun. Reading goes
through both independently (`records_append`). That a file may still be read after an append is a
fact about its permissions, which no writing changes.
-/

namespace LineShell

namespace Volume

variable {v w : Volume} {cwd : WorkingDirectory} {path text : String} {place : Location}
  {old : Bytes}

/-- What a file holds is read as its text, unless it may not be read; a missing file has the empty
text. -/
theorem readText_of_held? (hheld : v.held? cwd path = some (octets text))
    (hread : v.readFile cwd path ≠ .error (.refused .accessDenied)) :
    v.readText cwd path = .ok text ∨
      text = "" ∧ v.readText cwd path = .error (.refused .noEntry) := by
  simp only [held?] at hheld
  split at hheld
  · rename_i spot serial contents permissions hlook
    obtain rfl := Option.some.inj hheld
    have hmay : permissions.mayRead = true := by
      simpa [readFile, hlook] using hread
    simp [readText, readFile, hlook, hmay, Utf8.decode_octets]
  · rename_i hlook
    have hdecode := congrArg Utf8.decode (Option.some.inj hheld)
    rw [Utf8.decode_octets] at hdecode
    refine .inr ⟨(Option.some.inj hdecode).symm, ?_⟩
    simp [readText, readFile, hlook, Errno.noEntry]
  · simp at hheld

/-- There is a file in a place, and it may be read. -/
def IsReadable (v : Volume) (place : Location) : Prop :=
  ∃ serial contents permissions,
    v.find? place = some ⟨serial, .file contents permissions⟩ ∧ permissions.mayRead = true

/-- A path that leads to a file that may be read is not refused. -/
theorem IsReadable.readFile_ne {entry : Entry} (h : v.IsReadable place)
    (hlocate : v.locate cwd path .follow = .ok (.present place entry false)) :
    v.readFile cwd path ≠ .error (.refused .accessDenied) := by
  obtain ⟨serial, contents, permissions, hfound, hmay⟩ := h
  have hentry : v.find? place = some entry := agrees_of_locate hlocate
  obtain rfl := Option.some.inj (hfound.symm.trans hentry)
  simp [readFile, lookUp, hlocate, hmay]

/-- A new file may be read, and one that is there may be read if it could be read before. -/
theorem isReadable_of_openForAppending {opening : Opening} {destination : Destination}
    (hread : v.readFile cwd path ≠ .error (.refused .accessDenied))
    (hlocate : v.locate cwd path .create = .ok destination) (hplace : destination.IsAt place)
    (hheld : v.held? cwd path = some old)
    (hopen : v.openForWriting cwd path true = .ok (w, opening)) : w.IsReadable place := by
  have hfollow := locate_follow_of_create hlocate hplace
  rcases openForWriting_cases hopen with ⟨spot, hspot, rfl, -⟩ |
    ⟨spot, serial, contents, permissions, hspot, hsame, -⟩ |
    ⟨spot, serial, device, hspot, -, -⟩
  · obtain rfl := Except.ok.inj (hspot.symm.trans hlocate)
    obtain ⟨rfl, -⟩ := hplace
    exact ⟨v.free, [], .ofNewFile, by rw [find?_create, if_pos rfl], rfl⟩
  · obtain rfl := Except.ok.inj (hspot.symm.trans hlocate)
    obtain ⟨rfl, -⟩ := hplace
    obtain rfl : w = v := hsame
    refine ⟨serial, contents, permissions, agrees_of_locate hlocate, ?_⟩
    rw [ne_eq, readFile, lookUp, hfollow] at hread
    simpa using hread
  · obtain rfl := Except.ok.inj (hspot.symm.trans hlocate)
    simp [held?, lookUp, hfollow] at hheld

end Volume

namespace Machine

variable {m opened after : Machine} {place : Location} {row : Nat} {written old : Bytes}
  {cwd : WorkingDirectory} {path : String}

theorem isReadable_of_openFile {destination : Destination}
    (hread : m.volume.readFile cwd path ≠ .error (.refused .accessDenied))
    (hlocate : m.volume.locate cwd path .create = .ok destination) (hplace : destination.IsAt place)
    (hheld : m.volume.held? cwd path = some old)
    (hopen : m.openFile cwd path true = .ok (opened, row)) : opened.volume.IsReadable place := by
  simp only [openFile] at hopen
  split at hopen
  · simp at hopen
  all_goals
    rename_i hvolume
    obtain ⟨rfl, -⟩ := Prod.mk.inj (Except.ok.inj hopen)
    exact Volume.isReadable_of_openForAppending hread hlocate hplace hheld hvolume

/-- Writing changes no permissions. -/
theorem isReadable_write (h : m.volume.IsReadable place)
    (hwrite : m.write row written = .ok after) : after.volume.IsReadable place := by
  rcases write_cases hwrite with rfl | ⟨s, -, rfl⟩ |
    ⟨spot, number, access, offset, start, old, changed, -, -, hcontents, rfl⟩
  · exact h
  · exact h
  · obtain ⟨serial, contents, permissions, hfound, hmay⟩ := h
    by_cases hspot : place = spot
    · subst hspot
      have hsame := (contentsOf_eq_some_iff.mp hcontents).1
      rw [hfound, Option.some.injEq, Entry.mk.injEq, Node.file.injEq] at hsame
      obtain ⟨-, -, rfl⟩ := hsame
      refine ⟨serial, writeOver old start written, permissions, ?_, hmay⟩
      rw [Volume.find?_update, if_pos rfl, hfound]
      rfl
    · exact ⟨serial, contents, permissions, by rw [Volume.find?_update, if_neg hspot, hfound], hmay⟩

end Machine

namespace History

variable {h before kept : History} {m after : Machine} {v : Volume} {cwd : WorkingDirectory}
  {path text closed begun first : String} {rest : List String} {old : Bytes}

/-! ## Texts and their records -/

/-- Texts in which every line ends. -/
def IsClosed (text : String) : Prop := text = "" ∨ text.toList.getLast? = some '\n'

instance (text : String) : Decidable (IsClosed text) := inferInstanceAs (Decidable (_ ∨ _))

/-- Behind a text in which every line ends, reading starts anew. -/
theorem records_append (hclosed : IsClosed closed) (text : String) :
    records (closed ++ text) = records closed ++ records text := by
  rcases hclosed with rfl | hlast
  · simp [records, recordsFrom]
  · obtain ⟨lines, hlines⟩ := List.getLast?_eq_some_iff.mp hlast
    have hread (more : List Char) : recordsFrom [] (closed.toList ++ more) =
        pieces (String.ofList lines) ++ recordsFrom [] more := by
      rw [hlines, List.append_assoc, List.singleton_append, recordsFrom_append List.not_mem_nil]
      simp
    have hnothing := hread []
    rw [List.append_nil] at hnothing
    rw [records, records, String.toList_append, hread, hnothing]
    simp [records, recordsFrom]

/-- Every text is one in which every line ends, with a line behind it that was begun. -/
theorem exists_closed_append (text : String) :
    ∃ closed begun, text = closed ++ begun ∧ IsClosed closed ∧ '\n' ∉ begun.toList := by
  by_cases hfeed : '\n' ∈ text.toList
  · obtain ⟨line, lines, hlines, hline⟩ :=
      List.eq_append_cons_of_mem (List.mem_reverse.mpr hfeed)
    refine ⟨String.ofList (lines.reverse ++ ['\n']), String.ofList line.reverse, ?_,
      .inr (by simp), by simpa using hline⟩
    rw [← String.toList_inj]
    simpa using congrArg List.reverse hlines
  · exact ⟨"", text, by simp, .inl rfl, hfeed⟩

/-- Every line of a text ends exactly if no line was begun behind them. -/
theorem isClosed_append_iff (hclosed : IsClosed closed) (hbegun : '\n' ∉ begun.toList) :
    IsClosed (closed ++ begun) ↔ begun = "" := by
  constructor
  · intro h
    by_contra hne
    have hlist : begun.toList ≠ [] := by simpa using hne
    rcases h with hempty | hlast
    · simp [hne] at hempty
    · rw [String.toList_append, List.getLast?_append_of_ne_nil _ hlist] at hlast
      exact hbegun (List.mem_of_getLast? hlast)
  · rintro rfl
    simpa using hclosed

/-- A line that was begun goes on with the first line that is written behind it. -/
theorem append_fileText (begun first : String) (rest : List String) :
    begun ++ fileText (first :: rest) = fileText ((begun ++ first) :: rest) := by
  rw [← String.toList_inj]
  simp [toList_fileText]

theorem isBlank_append (a b : String) : isBlank (a ++ b) = (isBlank a && isBlank b) := by
  simp [isBlank]

/-- Lines that read back as they are do so behind a text in which every line ends, but the first one
joins a line that was begun. -/
theorem recorded_records_append (hclosed : IsClosed closed) (hbegun : '\n' ∉ begun.toList)
    (hvisible : ∀ line ∈ first :: rest, isBlank line = false)
    (hform : ∀ line ∈ first :: rest, '\n' ∉ line.toList ∧ line.toList.getLast? ≠ some '\r') :
    recorded (records (closed ++ begun ++ fileText (first :: rest))) =
      recorded (records closed) ++ (begun ++ first) :: rest := by
  obtain ⟨hfirst, hrest⟩ := List.forall_mem_cons.mp hvisible
  obtain ⟨⟨hfeed, hreturn⟩, hothers⟩ := List.forall_mem_cons.mp hform
  have hne : first.toList ≠ [] := by
    intro hempty
    simp [isBlank, hempty] at hfirst
  have hjoined : ∀ line ∈ (begun ++ first) :: rest,
      '\n' ∉ line.toList ∧ line.toList.getLast? ≠ some '\r' := by
    refine List.forall_mem_cons.mpr ⟨⟨?_, ?_⟩, hothers⟩
    · simp [hbegun, hfeed]
    · rwa [String.toList_append, List.getLast?_append_of_ne_nil _ hne]
  have hshown : ∀ line ∈ (begun ++ first) :: rest, isBlank line = false :=
    List.forall_mem_cons.mpr ⟨by rw [isBlank_append, hfirst, Bool.and_false], hrest⟩
  rw [String.append_assoc, append_fileText, records_append hclosed, recorded_append,
    records_fileText, (recorded_pieces_eq_iff hshown).mpr hjoined]

/-- A line that was begun and a first line behind it are two records only if nothing was begun. -/
theorem joined_eq_append_iff (begun first : String) (rest : List String) :
    (begun ++ first) :: rest = recorded (records begun) ++ first :: rest ↔ begun = "" := by
  constructor
  · intro hsame
    have hnone : recorded (records begun) = [] := by
      have hlength := congrArg List.length hsame
      rw [List.length_append, List.length_cons, List.length_cons] at hlength
      apply List.length_eq_zero_iff.mp
      omega
    rw [hnone, List.nil_append, List.cons.injEq] at hsame
    simpa using hsame.1
  · rintro rfl
    simp [records, recordsFrom]

/-- Lines are read back behind the records of a text exactly if every line of the text ends. -/
theorem recorded_records_append_iff {lines : List String}
    (hvisible : ∀ line ∈ lines, isBlank line = false)
    (hform : ∀ line ∈ lines, '\n' ∉ line.toList ∧ line.toList.getLast? ≠ some '\r') :
    recorded (records (text ++ fileText lines)) = recorded (records text) ++ lines ↔
      lines = [] ∨ IsClosed text := by
  cases lines with
  | nil => simp [fileText]
  | cons first rest =>
      obtain ⟨closed, begun, rfl, hclosed, hbegun⟩ := exists_closed_append text
      rw [recorded_records_append hclosed hbegun hvisible hform, records_append hclosed,
        recorded_append, List.append_assoc, List.append_right_inj, joined_eq_append_iff,
        isClosed_append_iff hclosed hbegun]
      simp

/-! ## Appending and loading -/

/-- A text is loaded from the file that holds it, unless it may not be read. -/
theorem exists_load_of_held? (h : History) (hheld : v.held? cwd path = some (octets text))
    (hread : v.readFile cwd path ≠ .error (.refused .accessDenied)) :
    ∃ loaded, h.load v cwd path = .ok loaded ∧
      loaded.lines = h.lines ++ recorded (records text) := by
  suffices hload : (∃ loaded, h.load v cwd path = .ok loaded) ∧
      recordsAt v cwd path = records text by
    obtain ⟨⟨loaded, hloaded⟩, hrecords⟩ := hload
    exact ⟨loaded, hloaded, hrecords ▸ lines_load hloaded⟩
  rcases Volume.readText_of_held? hheld hread with htext | ⟨rfl, hmissing⟩
  · simp [load, recordsAt, htext]
  · simp only [load, recordsAt, hmissing, if_true]
    exact ⟨⟨h, rfl⟩, rfl⟩

/-- A file that could be read before an append can be read afterwards. -/
theorem readFile_of_appendTo (hheld : m.volume.held? cwd path = some old)
    (hread : m.volume.readFile cwd path ≠ .error (.refused .accessDenied))
    (happend : h.appendTo m cwd path = (after, .ok kept)) :
    after.volume.readFile cwd path ≠ .error (.refused .accessDenied) := by
  rcases Machine.openFile_cases hheld with ⟨fault, hopened⟩ |
    ⟨opened, place, serial, hopened, hrow, hchanges, destination, hlocate, hplace⟩
  · simp [appendTo, writeFrom, hopened] at happend
  · obtain ⟨written, hwrite, hwritten⟩ := Machine.exists_write_of_appending hchanges hrow
      (octets (fileText (h.lines.drop h.persisted)))
    simp only [appendTo, writeFrom, hopened, Machine.print, hwrite] at happend
    obtain ⟨rfl, -⟩ := Prod.mk.inj happend
    have hreadable : opened.volume.IsReadable place :=
      Machine.isReadable_of_openFile hread hlocate hplace hheld hopened
    obtain ⟨permissions, hfound⟩ := hwritten.locate_of_create hlocate hplace
    exact (Machine.isReadable_write hreadable hwrite).readFile_ne hfound

/-- A history that was not refused the file can load it. -/
theorem readFile_of_load (hload : h.load v cwd path = .ok kept) :
    v.readFile cwd path ≠ .error (.refused .accessDenied) := by
  intro hdenied
  simp [load, Volume.readText, hdenied, Errno.accessDenied, Errno.noEntry] at hload

/-- An append puts the lines that are not in the file yet behind its text. -/
theorem held?_of_appendTo (hheld : m.volume.held? cwd path = some (octets text))
    (happend : h.appendTo m cwd path = (after, .ok kept)) :
    after.volume.held? cwd path = some (octets (text ++ fileText (h.lines.drop h.persisted))) := by
  rcases appendTo_cases h hheld with ⟨fault, hfailed⟩ | ⟨left, hdone, hleft⟩
  · simp [hfailed] at happend
  · obtain ⟨rfl, -⟩ := Prod.mk.inj (hdone.symm.trans happend)
    rw [hleft, ← octets_fileText]
    simp [octets]

/-- Lines that are appended to a file are read back behind its records exactly if every line of the
file ends. Otherwise the first line that is appended joins the one that was begun. -/
theorem load_of_appendTo (hreach : Reachable h)
    (hheld : m.volume.held? cwd path = some (octets text))
    (hbefore : History.empty.load m.volume cwd path = .ok before)
    (hform : ∀ line ∈ h.lines.drop h.persisted,
      '\n' ∉ line.toList ∧ line.toList.getLast? ≠ some '\r')
    (happend : h.appendTo m cwd path = (after, .ok kept)) :
    ∃ loaded, History.empty.load after.volume cwd path = .ok loaded ∧
      (loaded.lines = before.lines ++ h.lines.drop h.persisted ↔
        h.lines.drop h.persisted = [] ∨ IsClosed text) ∧
      ∀ closed begun first rest, text = closed ++ begun → IsClosed closed →
        '\n' ∉ begun.toList → h.lines.drop h.persisted = first :: rest →
        loaded.lines = recorded (records closed) ++ (begun ++ first) :: rest := by
  have hread := readFile_of_load hbefore
  have hlines : before.lines = recorded (records text) := by
    obtain ⟨found, hfound, hrecords⟩ := exists_load_of_held? .empty hheld hread
    obtain rfl := Except.ok.inj (hfound.symm.trans hbefore)
    exact hrecords
  obtain ⟨loaded, hload, hloaded⟩ := exists_load_of_held? .empty (held?_of_appendTo hheld happend)
    (readFile_of_appendTo hheld hread happend)
  have hvisible : ∀ line ∈ h.lines.drop h.persisted, isBlank line = false := by
    intro line hline
    exact hreach.wellFormed.not_blank line (List.mem_of_mem_drop hline)
  refine ⟨loaded, hload, ?_, ?_⟩
  · rw [hloaded, hlines]
    exact recorded_records_append_iff hvisible hform
  · rintro closed begun first rest rfl hclosed hbegun hpending
    rw [hpending] at hloaded hvisible hform
    exact hloaded.trans (recorded_records_append hclosed hbegun hvisible hform)

/-- The first of two lines joins the line with which a file ends. -/
theorem load_of_appendTo_of_begun_line :
    ∃ after loaded, (⟨["c", "d"], 2, 0⟩ : History).appendTo
        (holding "h" (.file (octets "a\nb") .ofNewFile)) .root "/h" =
          (after, .ok ⟨["c", "d"], 2, 2⟩) ∧
      History.empty.load after.volume .root "/h" = .ok loaded ∧
      loaded.lines = ["a", "bc", "d"] := by
  have hreach : Reachable ⟨["c", "d"], 2, 0⟩ :=
    (Reachable.empty.perform (.add "c") .root (holding "h" .newDirectory)).perform
      (.add "d") .root (holding "h" .newDirectory)
  have happend : ((⟨["c", "d"], 2, 0⟩ : History).appendTo
      (holding "h" (.file (octets "a\nb") .ofNewFile)) .root "/h").2 =
        .ok ⟨["c", "d"], 2, 2⟩ := by
    decide +kernel
  have hbefore : History.empty.load (holding "h" (.file (octets "a\nb") .ofNewFile)).volume .root
      "/h" = .ok ⟨["a", "b"], 2, 0⟩ := by
    decide +kernel
  obtain ⟨loaded, hload, -, hjoins⟩ := @load_of_appendTo _ _ _ _ _ _ _ "a\nb" hreach
    (by decide +kernel) hbefore (by decide +kernel) (Prod.ext rfl happend)
  refine ⟨_, loaded, Prod.ext rfl happend, hload, ?_⟩
  rw [hjoins "a\n" "b" "c" ["d"] (by decide +kernel) (by decide +kernel) (by decide +kernel) rfl]
  decide +kernel

/-- A file may end with a line that was only begun: what is appended to it then reads as one record
with this line. -/
theorem not_forall_load_of_appendTo :
    ¬ ∀ (h before kept : History) (m after : Machine) (cwd : WorkingDirectory)
      (path text : String), Reachable h → m.volume.held? cwd path = some (octets text) →
      History.empty.load m.volume cwd path = .ok before →
      (∀ line ∈ h.lines.drop h.persisted,
        '\n' ∉ line.toList ∧ line.toList.getLast? ≠ some '\r') →
      h.appendTo m cwd path = (after, .ok kept) →
      ∃ loaded, History.empty.load after.volume cwd path = .ok loaded ∧
        loaded.lines = before.lines ++ h.lines.drop h.persisted := by
  intro hapart
  have hreach : Reachable ⟨["new"], 1, 0⟩ :=
    Reachable.empty.perform (.add "new") .root (holding "h" .newDirectory)
  have happend : ((⟨["new"], 1, 0⟩ : History).appendTo
      (holding "h" (.file (octets "old") .ofNewFile)) .root "/h").2 = .ok ⟨["new"], 1, 1⟩ := by
    decide +kernel
  have hbefore : History.empty.load (holding "h" (.file (octets "old") .ofNewFile)).volume .root
      "/h" = .ok ⟨["old"], 1, 0⟩ := by
    decide +kernel
  obtain ⟨loaded, hload, hlines⟩ := hapart _ _ _ _ _ _ _ "old" hreach (by decide +kernel) hbefore
    (by decide +kernel) (Prod.ext rfl happend)
  have hone : History.empty.load ((⟨["new"], 1, 0⟩ : History).appendTo
      (holding "h" (.file (octets "old") .ofNewFile)) .root "/h").1.volume .root "/h" =
        .ok ⟨["oldnew"], 1, 0⟩ := by
    decide +kernel
  obtain rfl := Except.ok.inj (hload.symm.trans hone)
  revert hlines
  decide +kernel

end History

end LineShell
