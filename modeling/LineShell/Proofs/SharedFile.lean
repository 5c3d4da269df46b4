import LineShell.Proofs.OpenedFiles
import LineShell.Proofs.WrittenPieces

/-!
# Output and error stream in one file

When the output and the error stream of a command are redirected to one file, the file is opened
twice and each stream writes to it in its own way. All emptying is done before the first write, so
no write is undone by it: what is written stays until it is written over.
-/

namespace LineShell

namespace Volume

variable {v w : Volume} {cwd : WorkingDirectory} {redirect : Redirect} {opening : Opening}
  {place : Location} {serial number : Nat} {contents : Bytes} {permissions : Permissions}
  {files : List (Redirect × Opening)}

/-- Opening a file leaves all other files as they are, and empties its own at most. -/
theorem Opens.find?_of_file (hopens : v.Opens cwd redirect w opening)
    (hfile : v.find? place = some ⟨serial, .file contents permissions⟩) :
    ∃ left, w.find? place = some ⟨serial, .file left permissions⟩ ∧
      (left = contents ∨ left = []) := by
  cases hopens with
  | kept | device => exact ⟨contents, hfile, .inl rfl⟩
  | @created spot hleads =>
      have hvacant : v.find? spot = none := agrees_of_locate hleads
      have hother : place ≠ spot := by
        rintro rfl
        simp [hvacant] at hfile
      exact ⟨contents, by rw [find?_create, if_neg hother, hfile], .inl rfl⟩
  | @emptied spot number old granted hleads _ _ =>
      have hpresent : v.find? spot = some ⟨number, .file old granted⟩ := agrees_of_locate hleads
      by_cases hsame : place = spot
      · subst hsame
        rw [hpresent] at hfile
        obtain ⟨rfl, hnode⟩ := Entry.mk.inj (Option.some.inj hfile)
        obtain ⟨-, rfl⟩ := Node.file.inj hnode
        exact ⟨[], by rw [find?_put, if_pos rfl], .inr rfl⟩
      · exact ⟨contents, by rw [find?_put, if_neg hsame, hfile], .inl rfl⟩

theorem OpensAll.find?_of_file (hopens : OpensAll cwd v files w)
    (hfile : v.find? place = some ⟨serial, .file contents permissions⟩) :
    ∃ left, w.find? place = some ⟨serial, .file left permissions⟩ ∧
      (left = contents ∨ left = []) := by
  induction hopens generalizing contents with
  | nil v => exact ⟨contents, hfile, .inl rfl⟩
  | cons hfirst _ ih =>
      obtain ⟨between, hbetween, hfirst⟩ := hfirst.find?_of_file hfile
      obtain ⟨left, hleft, hrest⟩ := ih hbetween
      refine ⟨left, hleft, ?_⟩
      rcases hrest with rfl | rfl
      · exact hfirst
      · exact .inr rfl

/-- A file that has been opened is in its place, and it is empty unless it is appended to. -/
theorem Opens.exists_file (hopens : v.Opens cwd redirect w (.file place serial)) :
    ∃ left permissions, w.find? place = some ⟨serial, .file left permissions⟩ ∧
      (redirect.append = false → left = []) := by
  cases hopens with
  | created hleads => exact ⟨[], .ofNewFile, by rw [find?_create, if_pos rfl], fun _ => rfl⟩
  | kept hleads _ hkept =>
      refine ⟨_, _, agrees_of_locate hleads, fun hreplaces => ?_⟩
      simp [hkept] at hreplaces
  | emptied hleads _ _ => exact ⟨[], _, by rw [find?_put, if_pos rfl], fun _ => rfl⟩

theorem OpensAll.exists_file (hopens : OpensAll cwd v files w)
    (hfile : files[number]? = some (redirect, .file place serial)) :
    ∃ left permissions, w.find? place = some ⟨serial, .file left permissions⟩ ∧
      (redirect.append = false → left = []) := by
  induction hopens generalizing number with
  | nil v => simp at hfile
  | @cons v next w first opening files hfirst hrest ih =>
      cases number with
      | succ number => exact ih hfile
      | zero =>
          obtain ⟨rfl, rfl⟩ := Prod.mk.inj (Option.some.inj hfile)
          obtain ⟨left, permissions, hleft, hempty⟩ := hfirst.exists_file
          obtain ⟨still, hstill, hsame⟩ := hrest.find?_of_file hleft
          refine ⟨still, permissions, hstill, fun hreplaces => ?_⟩
          rcases hsame with rfl | rfl
          · exact hempty hreplaces
          · rfl

end Volume

namespace Machine

variable {m : Machine} {streams : Streams} {place : Location} {serial : Nat}
  {appends : Sink → Bool} {held : Bytes} {pieces : List Piece}

/-- What the file in a place holds, if it is the one with some serial number. -/
def heldAt? (m : Machine) (place : Location) (serial : Nat) : Option Bytes :=
  match m.contentsOf place serial with
  | some ⟨_, .file contents _⟩ => some contents
  | _ => none

/-- Both streams of a command lead to one file, to which some pieces have been written. -/
structure Shares (m : Machine) (streams : Streams) (place : Location) (serial : Nat)
    (appends : Sink → Bool) (held : Bytes) (pieces : List Piece) : Prop where
  rows_ne : ∀ sink other, sink ≠ other → streams.row sink ≠ streams.row other
  entry : ∃ permissions, m.volume.find? place =
    some ⟨serial, .file (Piece.overlay held pieces) permissions⟩
  channel : ∀ sink, ∃ offset, m.channel? (streams.row sink) =
      some (.file place serial (if appends sink then .appending else .writing) offset) ∧
    (appends sink = false → offset = Piece.writtenBy sink pieces)
  lies : Piece.Lies appends held pieces

theorem Shares.heldAt?_eq (h : m.Shares streams place serial appends held pieces) :
    m.heldAt? place serial = some (Piece.overlay held pieces) := by
  obtain ⟨permissions, hentry⟩ := h.entry
  have hcontents : m.contentsOf place serial =
      some ⟨serial, .file (Piece.overlay held pieces) permissions⟩ := by
    simp [contentsOf, hentry]
  simp only [heldAt?, hcontents]

/-- What is written to an open file is put over its contents. -/
theorem write_file {row offset start : Nat} {access : Access} {contents octets : Bytes}
    {permissions : Permissions} (hrow : m.channel? row = some (.file place serial access offset))
    (haccess : access ≠ .reading)
    (hcontents : m.contentsOf place serial = some ⟨serial, .file contents permissions⟩)
    (hstart : (if access = .appending then contents.length else offset) = start)
    (hoctets : octets ≠ []) :
    m.write row octets = .ok
      { m.setChannel row (.file place serial access (start + octets.length)) with
        volume := m.volume.update place
          (.file (writeOver contents start octets) permissions) } := by
  cases access with
  | reading => exact absurd rfl haccess
  | writing | appending => simp_all [write]

theorem write_nil_file {row offset : Nat} {access : Access}
    (hrow : m.channel? row = some (.file place serial access offset))
    (haccess : access ≠ .reading) : m.write row [] = .ok m := by
  cases access with
  | reading => exact absurd rfl haccess
  | writing | appending => simp [write, hrow]

/-- A write to one of the streams adds the piece that is next. -/
theorem Shares.exists_write (h : m.Shares streams place serial appends held pieces)
    (written : Sink × Bytes) :
    ∃ after, m.write (streams.row written.1) written.2 = .ok after ∧
      after.Shares streams place serial appends held
        (pieces ++ [Piece.next appends held.length pieces written]) := by
  obtain ⟨sink, octets⟩ := written
  obtain ⟨permissions, hentry⟩ := h.entry
  obtain ⟨offset, hchannel, hoffset⟩ := h.channel sink
  have hcontents : m.contentsOf place serial =
      some ⟨serial, .file (Piece.overlay held pieces) permissions⟩ := by
    simp [contentsOf, hentry]
  have haccess : (if appends sink then Access.appending else .writing) ≠ .reading := by
    split <;> simp
  have hlies := h.lies.next (sink, octets)
  have hinside := h.lies.start_le (sink, octets)
  have hoverlay := Piece.overlay_append held pieces
    (Piece.next appends held.length pieces (sink, octets))
  have hwritten (other : Sink) := Piece.writtenBy_append other pieces
    (Piece.next appends held.length pieces (sink, octets))
  by_cases hoctets : octets = []
  · subst hoctets
    refine ⟨m, write_nil_file hchannel haccess, h.rows_ne, ⟨permissions, ?_⟩, ?_, hlies⟩
    · rw [hoverlay.trans (writeOver_nil hinside)]
      exact hentry
    · intro other
      rw [hwritten]
      simpa [Piece.next] using h.channel other
  · have hstart : (if (if appends sink then Access.appending else .writing) = .appending
        then (Piece.overlay held pieces).length else offset) =
          (Piece.next appends held.length pieces (sink, octets)).start := by
      rw [h.lies.length_eq]
      cases hruns : appends sink <;> simp [Piece.next, hruns, hoffset]
    refine ⟨_, write_file hchannel haccess hcontents hstart hoctets, h.rows_ne,
      ⟨permissions, ?_⟩, ?_, hlies⟩
    · rw [hoverlay, Volume.find?_update, if_pos rfl, hentry]
      rfl
    · intro other
      by_cases hsame : other = sink
      · subst hsame
        refine ⟨_, (channel?_setChannel_self ..).trans (congrArg _ hchannel), ?_⟩
        intro hruns
        rw [hwritten]
        simp [Piece.next, hruns]
      · obtain ⟨offset, hother, hruns⟩ := h.channel other
        refine ⟨offset, ?_, ?_⟩
        · exact (channel?_setChannel_of_ne (h.rows_ne _ _ (Ne.symm hsame))).trans hother
        · intro hnot
          rw [hruns hnot, hwritten]
          simp [Piece.next, Ne.symm hsame]

theorem Shares.writeAll (h : m.Shares streams place serial appends held pieces)
    (writes : List (Sink × Bytes)) :
    (m.writeAll streams writes).Shares streams place serial appends held
      (Piece.extend appends held.length pieces writes) := by
  induction writes generalizing m pieces with
  | nil => exact h
  | cons written rest ih =>
      obtain ⟨after, hwrite, hafter⟩ := h.exists_write written
      rw [writeAll_cons, Piece.extend_cons, writeOrSkip, hwrite]
      exact ih hafter

/-- A machine with a file that holds something. -/
def withOldFile : Machine :=
  ⟨⟨[([], ⟨0, .newDirectory⟩), ([.text "f"], ⟨1, .file (octets "old") .ofNewFile⟩)], 2⟩,
    [.tape [] 0, .stream .empty, .stream .empty], none, [], 1⟩

end Machine

namespace Redirection

variable {m opened : Machine} {cwd : WorkingDirectory} {w : Volume} {r : Redirection}
  {files : List (Redirect × Opening)} {place : Location} {serial : Nat} {number : Sink → Nat}
  {last : Sink → Redirect}

theorem row_apply (r : Redirection) (streams : Streams) (sink : Sink) :
    (r.apply streams).row sink = (r.row? sink.target).getD (streams.row sink) := by
  cases sink <;> rfl

/-- When the last files for both streams are one file, both streams lead to it. -/
theorem shares_of_leaves (hleaves : none.Leaves m files r opened)
    (hlast : ∀ sink, LastFor sink files (number sink) (last sink, .file place serial))
    {held : Bytes} {permissions : Permissions}
    (hentry : opened.volume.find? place = some ⟨serial, .file held permissions⟩)
    (streams : Streams) :
    opened.Shares (r.apply streams) place serial (fun sink => (last sink).append) held [] := by
  have hrow (sink : Sink) : (r.apply streams).row sink = m.channels.length + number sink := by
    rw [row_apply, (hleaves.last sink _ _ (hlast sink)).1, Option.getD_some]
  have hinjective (sink other : Sink) (hne : sink ≠ other) : number sink ≠ number other := by
    intro hnumber
    have hfile := (hlast sink).file_eq
    rw [hnumber, (hlast other).file_eq] at hfile
    have htarget : other.target = sink.target := by
      rw [← (hlast sink).same, ← (hlast other).same]
      exact congrArg (·.1.target) (Option.some.inj hfile)
    cases sink <;> cases other <;> simp_all [Sink.target]
  refine ⟨?_, ⟨permissions, hentry⟩, ?_, Piece.lies_nil ..⟩
  · intro sink other hne
    have hnumber := hinjective sink other hne
    rw [hrow, hrow]
    omega
  · intro sink
    refine ⟨0, ?_, fun _ => rfl⟩
    rw [hrow]
    exact (hleaves.last sink _ _ (hlast sink)).2

/-- When output and error stream are redirected to one file, all their writes succeed. A piece
begins where `Piece.next` says: at the end that the file has at that moment if the redirect of its
stream appends, and otherwise at the offset of its stream, which runs from zero. What the file held
when all redirects were open is nothing if one of the two empties it. Whatever it holds at any later
moment is there until a later piece covers it. -/
theorem two_streams_in_one_file (hopens : m.volume.OpensAll cwd files w)
    (hlast : ∀ sink, LastFor sink files (number sink) (last sink, .file place serial)) :
    ∃ opened r held, openAll m cwd (files.map Prod.fst) = (opened, .ok r) ∧
      opened.heldAt? place serial = some held ∧
      ((∃ sink, (last sink).append = false) → held = []) ∧
      ∀ streams writes, ∃ contents,
        (opened.writeAll (r.apply streams) writes).heldAt? place serial = some contents ∧
        Piece.IsLeftBy (fun sink => (last sink).append) held writes contents ∧
        (∀ sink octets, ∃ after, (opened.writeAll (r.apply streams) writes).write
          ((r.apply streams).row sink) octets = .ok after) ∧
        ∀ later, ∃ more final,
          (opened.writeAll (r.apply streams) (writes ++ later)).heldAt? place serial =
            some final ∧
          Piece.ofWrites (fun sink => (last sink).append) held.length (writes ++ later) =
            Piece.ofWrites (fun sink => (last sink).append) held.length writes ++ more ∧
          ∀ position, final[position]? =
            (Piece.latest? more position).or contents[position]? := by
  obtain ⟨opened, r, hopen, rfl⟩ := exists_openFrom hopens none
  have hleaves := leaves_openFrom hopens (isBelow_none _) hopen
  obtain ⟨held, permissions, hentry, -⟩ := hopens.exists_file (hlast .output).file_eq
  have hshares := shares_of_leaves hleaves hlast hentry
  have hempty : (∃ sink, (last sink).append = false) → held = [] := by
    rintro ⟨sink, hreplaces⟩
    obtain ⟨left, granted, hleft, hnothing⟩ := hopens.exists_file (hlast sink).file_eq
    rw [hentry] at hleft
    obtain ⟨-, hnode⟩ := Entry.mk.inj (Option.some.inj hleft)
    exact (Node.file.inj hnode).1.trans (hnothing hreplaces)
  refine ⟨opened, r, held, hopen, (hshares ⟨0, 1, 2⟩).heldAt?_eq, hempty, ?_⟩
  intro streams writes
  have hwritten := (hshares streams).writeAll writes
  refine ⟨_, hwritten.heldAt?_eq, Piece.isLeftBy_overlay .., ?_, ?_⟩
  · intro sink octets
    obtain ⟨after, hwrite, -⟩ := hwritten.exists_write (sink, octets)
    exact ⟨after, hwrite⟩
  · intro later
    obtain ⟨more, hmore, -, hoctets⟩ := hwritten.lies.exists_extend later
    have hall : Piece.ofWrites (fun sink => (last sink).append) held.length (writes ++ later) =
        Piece.ofWrites (fun sink => (last sink).append) held.length writes ++ more :=
      (Piece.extend_append ..).trans hmore
    refine ⟨more, _, ((hshares streams).writeAll (writes ++ later)).heldAt?_eq, hall, ?_⟩
    intro position
    rw [← hoctets position]
    exact congrArg (fun pieces => (Piece.overlay held pieces)[position]?) hall

/-- The output replaces what the file holds, and the error stream appends to it. -/
def twoWays : Sink → Redirect
  | .output => ⟨.output, "f", false⟩
  | .error => ⟨.error, "./f", true⟩

/-- The output writes over what the error stream has appended, but not over its last piece. -/
theorem two_streams_in_one_file_of_two_ways :
    ∃ opened r contents,
      openAll Machine.withOldFile .root [twoWays .output, twoWays .error] = (opened, .ok r) ∧
      (opened.writeAll (r.apply ⟨0, 1, 2⟩) [(.output, octets "abc"), (.error, octets "XY"),
        (.output, octets "def"), (.error, octets "Z")]).heldAt? [.text "f"] 1 = some contents ∧
      Piece.IsLeftBy (fun sink => (twoWays sink).append) [] [(.output, octets "abc"),
        (.error, octets "XY"), (.output, octets "def"), (.error, octets "Z")] contents ∧
      contents = octets "abcdefZ" := by
  have houtput : Machine.withOldFile.volume.locate .root "f" .create =
      .ok (.present [.text "f"] ⟨1, .file (octets "old") .ofNewFile⟩ false) := rfl
  have herror : (Machine.withOldFile.volume.put [.text "f"] ⟨1, .file [] .ofNewFile⟩).locate .root
      "./f" .create = .ok (.present [.text "f"] ⟨1, .file [] .ofNewFile⟩ false) := rfl
  have hopens : Machine.withOldFile.volume.OpensAll .root
      [(twoWays .output, .file [.text "f"] 1), (twoWays .error, .file [.text "f"] 1)]
      (Machine.withOldFile.volume.put [.text "f"] ⟨1, .file [] .ofNewFile⟩) :=
    .cons (.emptied houtput rfl rfl) (.cons (.kept herror rfl rfl) (.nil _))
  have hlast (sink : Sink) : LastFor sink
      [(twoWays .output, .file [.text "f"] 1), (twoWays .error, .file [.text "f"] 1)]
      (match sink with | .output => 0 | .error => 1) (twoWays sink, .file [.text "f"] 1) := by
    cases sink with
    | output => exact ⟨rfl, rfl, by decide⟩
    | error => exact ⟨rfl, rfl, by decide⟩
  have hrun : (openAll Machine.withOldFile .root [twoWays .output, twoWays .error]).2 =
        .ok ⟨some 3, some 4⟩ ∧
      ((openAll Machine.withOldFile .root [twoWays .output, twoWays .error]).1.writeAll ⟨0, 3, 4⟩
        [(.output, octets "abc"), (.error, octets "XY"), (.output, octets "def"),
          (.error, octets "Z")]).heldAt? [.text "f"] 1 = some (octets "abcdefZ") :=
    ⟨rfl, by decide +kernel⟩
  obtain ⟨opened, r, held, hopen, -, hempty, hwrites⟩ := two_streams_in_one_file hopens hlast
  obtain rfl := hempty ⟨.output, rfl⟩
  obtain ⟨contents, hcontents, hleft, -⟩ := hwrites ⟨0, 1, 2⟩ [(.output, octets "abc"),
    (.error, octets "XY"), (.output, octets "def"), (.error, octets "Z")]
  simp only [List.map_cons, List.map_nil] at hopen
  rw [hopen] at hrun
  obtain ⟨hr, hheld⟩ := hrun
  obtain rfl := Except.ok.inj hr
  exact ⟨opened, _, contents, hopen, hcontents, hleft,
    Option.some.inj (hcontents.symm.trans hheld)⟩

end Redirection

end LineShell
