import LineShell.Execution
import LineShell.Proofs.RedirectedStreams
import LineShell.Proofs.SinkWrites

/-!
# The files that redirects open

The redirects of a command are opened in order, and each does to the volume what the ones before it
have left for it to do. When all of them are open, a stream leads to the file that was opened last
for it, and every other file is closed again: whatever the command writes, it does not get there.
When one cannot be opened, the ones before it have done what they do, and nothing else has happened:
the command does not run, and the shell is as it was.

## Implementation notes

The file of each redirect gets the next row of the table, so the number of a redirect in the list
tells its row. `Volume.Opens` says what opening does without the code that does it, and
`openForWriting_eq_ok_iff` is the one place where the two meet.
-/

namespace LineShell

/-- The target of the redirects for a stream. -/
def Sink.target : Sink → Target
  | .output => .output
  | .error => .error

/-- The channel that a redirect opens. -/
def Opening.channel (append : Bool) : Opening → Channel
  | .file place serial => .file place serial (if append then .appending else .writing) 0
  | .device kind => .device kind

namespace Volume

variable {v w : Volume} {cwd : WorkingDirectory} {redirect : Redirect} {opening : Opening}

/-- What opening the file of a redirect makes of a volume. -/
inductive Opens (v : Volume) (cwd : WorkingDirectory) (redirect : Redirect) :
    Volume → Opening → Prop
  /-- A missing file is created, if its directory may be changed. -/
  | created {place : Location}
      (leads : v.locate cwd redirect.path .create = .ok (.vacant place false))
      (allowed : v.mayChangeAt place = true) :
      Opens v cwd redirect (v.create place (.file [] .ofNewFile)) (.file place v.free)
  /-- A file that is to be appended to stays as it is. -/
  | kept {place : Location} {serial : Nat} {contents : Bytes} {permissions : Permissions}
      (leads : v.locate cwd redirect.path .create =
        .ok (.present place ⟨serial, .file contents permissions⟩ false))
      (writable : permissions.mayWrite = true) (appends : redirect.append = true) :
      Opens v cwd redirect v (.file place serial)
  /-- Any other file is emptied. -/
  | emptied {place : Location} {serial : Nat} {contents : Bytes} {permissions : Permissions}
      (leads : v.locate cwd redirect.path .create =
        .ok (.present place ⟨serial, .file contents permissions⟩ false))
      (writable : permissions.mayWrite = true) (replaces : redirect.append = false) :
      Opens v cwd redirect (v.put place ⟨serial, .file [] permissions⟩) (.file place serial)
  | device {place : Location} {serial : Nat} {device : Device}
      (leads : v.locate cwd redirect.path .create =
        .ok (.present place ⟨serial, .device device⟩ false)) :
      Opens v cwd redirect v (.device device)

/-- What opening files one after the other makes of a volume. -/
inductive OpensAll (cwd : WorkingDirectory) : Volume → List (Redirect × Opening) → Volume → Prop
  | nil (v : Volume) : OpensAll cwd v [] v
  | cons {v next w : Volume} {redirect : Redirect} {opening : Opening}
      {files : List (Redirect × Opening)} (first : v.Opens cwd redirect next opening)
      (rest : OpensAll cwd next files w) : OpensAll cwd v ((redirect, opening) :: files) w

theorem openForWriting_eq_ok_iff :
    v.openForWriting cwd redirect.path redirect.append = .ok (w, opening) ↔
      v.Opens cwd redirect w opening := by
  constructor
  · intro hopen
    simp only [openForWriting] at hopen
    split at hopen
    case h_1 | h_2 => simp at hopen
    case h_3 place slash hlocate =>
      cases slash with
      | true => simp at hopen
      | false =>
          cases hallowed : v.mayChangeAt place with
          | false => simp [hallowed] at hopen
          | true =>
              simp only [hallowed, if_true, Bool.false_eq_true, if_false] at hopen
              obtain ⟨rfl, rfl⟩ := Prod.mk.inj (Except.ok.inj hopen)
              exact .created hlocate hallowed
    case h_4 place entry slash hlocate =>
      obtain ⟨serial, node⟩ := entry
      cases slash with
      | true => simp at hopen
      | false =>
          cases node with
          | directory | link | program => simp at hopen
          | device device =>
              obtain ⟨rfl, rfl⟩ := Prod.mk.inj (Except.ok.inj hopen)
              exact .device hlocate
          | file contents permissions =>
              cases hwritable : permissions.mayWrite with
              | false => simp [hwritable] at hopen
              | true =>
                  simp only [hwritable, if_true, Bool.false_eq_true, if_false] at hopen
                  obtain ⟨rfl, rfl⟩ := Prod.mk.inj (Except.ok.inj hopen)
                  cases happend : redirect.append with
                  | true => exact .kept hlocate hwritable happend
                  | false => exact .emptied hlocate hwritable happend
  · intro hopens
    cases hopens with
    | created hlocate hallowed => simp [openForWriting, hlocate, hallowed]
    | kept hlocate hwritable happend => simp [openForWriting, hlocate, hwritable, happend]
    | emptied hlocate hwritable hreplace => simp [openForWriting, hlocate, hwritable, hreplace]
    | device hlocate => simp [openForWriting, hlocate]

/-- A file is refused exactly if there is no way to open it. -/
theorem exists_openForWriting_eq_error_iff :
    (∃ fault, v.openForWriting cwd redirect.path redirect.append = .error fault) ↔
      ∀ next opening, ¬v.Opens cwd redirect next opening := by
  constructor
  · rintro ⟨fault, hfault⟩ next opening hopens
    rw [openForWriting_eq_ok_iff.mpr hopens] at hfault
    simp at hfault
  · intro hnone
    cases hopen : v.openForWriting cwd redirect.path redirect.append with
    | error fault => exact ⟨fault, rfl⟩
    | ok result => exact absurd (openForWriting_eq_ok_iff.mp hopen) (hnone _ _)

/-- Files are opened one after the other as far as the first one that there is no way to open. -/
theorem exists_opensAll (v : Volume) (cwd : WorkingDirectory) (redirects : List Redirect) :
    (∃ files w, files.map Prod.fst = redirects ∧ OpensAll cwd v files w) ∨
      ∃ files redirect later w, redirects = files.map Prod.fst ++ redirect :: later ∧
        OpensAll cwd v files w ∧ ∀ next opening, ¬w.Opens cwd redirect next opening := by
  induction redirects generalizing v with
  | nil => exact .inl ⟨[], v, rfl, .nil v⟩
  | cons redirect rest ih =>
      by_cases hopens : ∃ next opening, v.Opens cwd redirect next opening
      · obtain ⟨next, opening, hfirst⟩ := hopens
        rcases ih next with ⟨files, w, rfl, hfiles⟩ | ⟨files, refused, later, w, rfl, hfiles, hnone⟩
        · exact .inl ⟨(redirect, opening) :: files, w, rfl, .cons hfirst hfiles⟩
        · exact .inr ⟨(redirect, opening) :: files, refused, later, w, rfl, .cons hfirst hfiles,
            hnone⟩
      · exact .inr ⟨[], redirect, rest, v, rfl, .nil v,
          fun next opening hfirst => hopens ⟨next, opening, hfirst⟩⟩

end Volume

/-- A machine with further rows, in which nothing else has changed but the volume. -/
structure Machine.Extends (m opened : Machine) : Prop where
  channels : m.channels <+: opened.channels
  terminal : opened.terminal = m.terminal
  signals : opened.signals = m.signals
  patience : opened.patience = m.patience

namespace Redirection

/-- The file that was opened last for a stream, and its number. -/
structure LastFor (sink : Sink) (files : List (Redirect × Opening)) (number : Nat)
    (file : Redirect × Opening) : Prop where
  file_eq : files[number]? = some file
  same : file.1.target = sink.target
  others : ∀ later ∈ files.drop (number + 1), later.1.target ≠ sink.target

/-- Where the streams lead when files were opened for them, after those in force. -/
structure Leaves (r : Redirection) (m : Machine) (files : List (Redirect × Opening))
    (final : Redirection) (opened : Machine) : Prop where
  /-- A stream leads to the file that was opened last for it. -/
  last : ∀ (sink : Sink) number file, LastFor sink files number file →
    final.row? sink.target = some (m.channels.length + number) ∧
      opened.channel? (m.channels.length + number) = some (file.2.channel file.1.append)
  /-- A stream leads where it led before when no file was opened for it. -/
  before : ∀ sink : Sink, (∀ file ∈ files, file.1.target ≠ sink.target) →
    final.row? sink.target = r.row? sink.target
  /-- Every other file is closed. -/
  closed : ∀ number file, files[number]? = some file →
    (∀ sink, ¬LastFor sink files number file) →
    opened.channel? (m.channels.length + number) = some .closed

variable {r final : Redirection} {m opened : Machine} {cwd : WorkingDirectory} {w : Volume}
  {redirects : List Redirect} {redirect : Redirect} {opening : Opening} {target : Target}
  {files : List (Redirect × Opening)} {row bound : Nat}

@[simp] theorem volume_closeSuperseded (r : Redirection) (m : Machine) (target : Target)
    (new : Nat) : (r.closeSuperseded m target new).volume = m.volume := by
  simp only [closeSuperseded]
  split <;> rfl

theorem isStream_target (sink : Sink) : sink.target.isStream = true := by
  cases sink <;> rfl

theorem exists_target_or_unknown (target : Target) :
    (∃ sink : Sink, target = sink.target) ∨ ∃ descriptor, target = .unknown descriptor := by
  cases target with
  | output => exact .inl ⟨.output, rfl⟩
  | error => exact .inl ⟨.error, rfl⟩
  | unknown descriptor => exact .inr ⟨descriptor, rfl⟩

theorem openFile_of_opens (hopens : m.volume.Opens cwd redirect w opening) :
    m.openFile cwd redirect.path redirect.append =
      .ok ({ m with volume := w }.addChannel (opening.channel redirect.append)) := by
  have hopen := Volume.openForWriting_eq_ok_iff.mpr hopens
  cases opening <;> simp only [Machine.openFile, hopen, Opening.channel]

/-- The machine with one more file open, and with the file that it replaces closed. -/
def withFile (r : Redirection) (m : Machine) (w : Volume) (redirect : Redirect)
    (opening : Opening) : Machine :=
  r.closeSuperseded ({ m with volume := w }.addChannel (opening.channel redirect.append)).1
    redirect.target m.channels.length

@[simp] theorem volume_withFile (r : Redirection) (m : Machine) (w : Volume)
    (redirect : Redirect) (opening : Opening) : (r.withFile m w redirect opening).volume = w := by
  simp [withFile, Machine.addChannel]

@[simp] theorem length_withFile (r : Redirection) (m : Machine) (w : Volume)
    (redirect : Redirect) (opening : Opening) :
    (r.withFile m w redirect opening).channels.length = m.channels.length + 1 := by
  simp [withFile, length_closeSuperseded, Machine.addChannel]

theorem openFrom_cons (hopens : m.volume.Opens cwd redirect w opening) (r : Redirection)
    (rest : List Redirect) :
    r.openFrom m cwd (redirect :: rest) =
      (r.send redirect.target m.channels.length).openFrom (r.withFile m w redirect opening)
        cwd rest := by
  simp only [openFrom, openFile_of_opens hopens]
  rfl

theorem IsBelow.withFile (hbelow : r.IsBelow m.channels.length)
    (hopens : m.volume.Opens cwd redirect w opening) :
    (r.send redirect.target m.channels.length).IsBelow
      (r.withFile m w redirect opening).channels.length :=
  hbelow.send (openFile_of_opens hopens) redirect.target

/-- Opening all files succeeds, and the volume is what opening them makes of it. -/
theorem exists_openFrom (hopens : m.volume.OpensAll cwd files w) (r : Redirection) :
    ∃ opened final, r.openFrom m cwd (files.map Prod.fst) = (opened, .ok final) ∧
      opened.volume = w := by
  generalize hv : m.volume = v at hopens
  induction hopens generalizing r m with
  | nil v => exact ⟨m, r, rfl, hv⟩
  | @cons v next w redirect opening files hfirst _ ih =>
      subst hv
      rw [List.map_cons, openFrom_cons hfirst]
      exact ih _ (volume_withFile ..)

/-- The files behind those that are open already are opened on the machine that these have left. -/
theorem openFrom_append (hopen : r.openFrom m cwd redirects = (opened, .ok final))
    (later : List Redirect) :
    r.openFrom m cwd (redirects ++ later) = final.openFrom opened cwd later := by
  induction redirects generalizing r m with
  | nil =>
      obtain ⟨rfl, hfinal⟩ := Prod.mk.inj hopen
      obtain rfl := Except.ok.inj hfinal
      rfl
  | cons redirect rest ih =>
      simp only [List.cons_append, openFrom] at hopen ⊢
      split at hopen
      case h_1 => simp at hopen
      case h_2 after new hfile =>
        exact ih hopen

/-- What is closed stays closed. -/
theorem closed_openFrom (hclosed : m.channel? row = some .closed) (r : Redirection)
    (cwd : WorkingDirectory) (redirects : List Redirect) :
    (r.openFrom m cwd redirects).1.channel? row = some .closed := by
  have hlt := (List.getElem?_eq_some_iff.mp hclosed).1
  induction redirects generalizing r m with
  | nil => exact hclosed
  | cons redirect rest ih =>
      simp only [openFrom]
      split
      case h_1 => exact hclosed
      case h_2 after new hfile =>
        have hafter := (Machine.keepsRow_openFile row hfile).channel?_eq hlt
        have hnext : (r.closeSuperseded after redirect.target new).channel? row =
            some .closed := by
          simp only [closeSuperseded]
          split
          case h_2 => exact hafter.trans hclosed
          case h_1 old _ =>
            by_cases hold : row = old
            · subst hold
              have hnew := (Machine.keepsRow_openFile row hfile).length_le
              exact List.getElem?_set_self (Nat.lt_of_lt_of_le hlt hnew)
            · rw [Machine.close, Machine.channel?_setChannel_of_ne (Ne.symm hold)]
              exact hafter.trans hclosed
        exact ih hnext _ (List.getElem?_eq_some_iff.mp hnext).1

theorem row?_openFrom (hothers : ∀ redirect ∈ redirects, redirect.target ≠ target)
    (hopen : r.openFrom m cwd redirects = (opened, .ok final)) :
    final.row? target = r.row? target := by
  induction redirects generalizing r m with
  | nil =>
      obtain ⟨-, hfinal⟩ := Prod.mk.inj hopen
      obtain rfl := Except.ok.inj hfinal
      rfl
  | cons redirect rest ih =>
      simp only [openFrom] at hopen
      split at hopen
      case h_1 => simp at hopen
      case h_2 after new hfile =>
        rw [ih (fun later hlater => hothers later (List.mem_cons_of_mem _ hlater)) hopen]
        exact row?_send_of_ne (hothers redirect List.mem_cons_self)

/-- The file of a stream is closed when a later redirect is for the stream. -/
theorem closed_of_later (hbelow : r.IsBelow m.channels.length)
    (hrow : r.row? target = some row)
    (hlater : ∃ redirect ∈ redirects, redirect.target = target)
    (hopen : r.openFrom m cwd redirects = (opened, .ok final)) :
    opened.channel? row = some .closed := by
  induction redirects generalizing r m with
  | nil => simp at hlater
  | cons redirect rest ih =>
      simp only [openFrom] at hopen
      split at hopen
      case h_1 => simp at hopen
      case h_2 after new hfile =>
        by_cases hsame : redirect.target = target
        · have hlt : row < after.channels.length :=
            Nat.lt_of_lt_of_le (hbelow _ _ hrow) (Machine.keepsRow_openFile row hfile).length_le
          have hsuperseded : r.superseded redirect.target new = some row := by
            subst hsame
            cases htarget : redirect.target with
            | output | error => simpa [htarget, row?, superseded] using hrow
            | unknown descriptor => simp [htarget, row?] at hrow
          have hclosed : (r.closeSuperseded after redirect.target new).channel? row =
              some .closed := by
            simp only [closeSuperseded, hsuperseded]
            exact List.getElem?_set_self hlt
          have hstays := closed_openFrom hclosed (r.send redirect.target new) cwd rest
          rwa [hopen] at hstays
        · have hrest : ∃ later ∈ rest, later.target = target := by
            obtain ⟨later, hmem, htarget⟩ := hlater
            rcases List.mem_cons.mp hmem with rfl | hmem
            · exact absurd htarget hsame
            · exact ⟨later, hmem, htarget⟩
          exact ih (hbelow.send hfile redirect.target) ((row?_send_of_ne hsame).trans hrow)
            hrest hopen

theorem extends_withFile {base : Machine} (hbase : base.Extends m)
    (hrows : ∀ target row, r.row? target = some row → base.channels.length ≤ row)
    (w : Volume) (redirect : Redirect) (opening : Opening) :
    base.Extends (r.withFile m w redirect opening) := by
  obtain ⟨later, hchannels⟩ := hbase.channels
  have hlength : base.channels.length ≤ m.channels.length := hbase.channels.length_le
  have hadded : base.channels <+: m.channels ++ [opening.channel redirect.append] :=
    hbase.channels.trans (List.prefix_append ..)
  simp only [withFile, closeSuperseded]
  split
  case h_2 => exact ⟨hadded, hbase.terminal, hbase.signals, hbase.patience⟩
  case h_1 old hold =>
    have hle : base.channels.length ≤ old := by
      rcases superseded_cases hold with hrow | ⟨rfl, -⟩
      · exact hrows _ _ hrow
      · exact hlength
    refine ⟨?_, hbase.terminal, hbase.signals, hbase.patience⟩
    obtain ⟨rest, hrest⟩ := hadded
    simp only [Machine.close, Machine.setChannel, Machine.addChannel]
    rw [← hrest, List.set_append_right _ _ hle]
    exact List.prefix_append ..

/-- Opening files adds rows and changes the volume. -/
theorem extends_openFrom {base : Machine} (hopens : m.volume.OpensAll cwd files w)
    (hbase : base.Extends m)
    (hrows : ∀ target row, r.row? target = some row → base.channels.length ≤ row)
    (hopen : r.openFrom m cwd (files.map Prod.fst) = (opened, .ok final)) :
    base.Extends opened := by
  generalize hv : m.volume = v at hopens
  induction hopens generalizing r m with
  | nil v =>
      obtain ⟨rfl, -⟩ := Prod.mk.inj hopen
      exact hbase
  | @cons v next w redirect opening files hfirst _ ih =>
      subst hv
      rw [List.map_cons, openFrom_cons hfirst] at hopen
      refine ih (extends_withFile hbase hrows next redirect opening) ?_ hopen (volume_withFile ..)
      intro target row hrow
      rcases row?_send_cases hrow with ⟨rfl, -⟩ | ⟨hold, -⟩
      · exact hbase.channels.length_le
      · exact hrows target row hold

/-- The first file that is opened stays open if it is the last one for its stream. -/
theorem last_of_first {sink : Sink} (hbelow : r.IsBelow m.channels.length)
    (hfirst : m.volume.Opens cwd redirect w opening)
    (hlast : LastFor sink ((redirect, opening) :: files) 0 (redirect, opening))
    (hopen : (r.send redirect.target m.channels.length).openFrom
      (r.withFile m w redirect opening) cwd (files.map Prod.fst) = (opened, .ok final)) :
    final.row? sink.target = some m.channels.length ∧
      opened.channel? m.channels.length = some (opening.channel redirect.append) := by
  have hothers : ∀ later ∈ files.map Prod.fst, later.target ≠ redirect.target := by
    intro later hlater
    obtain ⟨file, hmem, rfl⟩ := List.mem_map.mp hlater
    exact hlast.same ▸ hlast.others file hmem
  have hstream : redirect.target.isStream = true := hlast.same ▸ isStream_target sink
  have hchannel : ((r.send redirect.target m.channels.length).openFrom
      (r.withFile m w redirect opening) cwd (files.map Prod.fst)).1.channel? m.channels.length =
        some (opening.channel redirect.append) := by
    refine (channel?_openFrom_new hbelow hstream (openFile_of_opens hfirst) hothers).trans ?_
    simp [Machine.channel?]
  rw [hopen] at hchannel
  rw [← hlast.same, row?_openFrom hothers hopen, row?_send_self hstream]
  exact ⟨rfl, hchannel⟩

/-- The first file that is opened is closed if it is not the last one for a stream. -/
theorem closed_of_first (hbelow : r.IsBelow m.channels.length)
    (hfirst : m.volume.Opens cwd redirect w opening)
    (hnot : ∀ sink, ¬LastFor sink ((redirect, opening) :: files) 0 (redirect, opening))
    (hopen : (r.send redirect.target m.channels.length).openFrom
      (r.withFile m w redirect opening) cwd (files.map Prod.fst) = (opened, .ok final)) :
    opened.channel? m.channels.length = some .closed := by
  rcases exists_target_or_unknown redirect.target with ⟨sink, hsink⟩ | ⟨_, hunknown⟩
  · have hlater : ∃ later ∈ files.map Prod.fst, later.target = sink.target :=
      Classical.byContradiction fun hnone => hnot sink ⟨rfl, hsink,
        fun file hmem hsame => hnone ⟨file.1, List.mem_map_of_mem hmem, hsame⟩⟩
    have hrow : (r.send redirect.target m.channels.length).row? sink.target =
        some m.channels.length := by
      rw [hsink]
      exact row?_send_self (isStream_target sink)
    exact closed_of_later (hbelow.withFile hfirst) hrow hlater hopen
  · have hclosed : (r.withFile m w redirect opening).channel? m.channels.length =
        some .closed := by
      simp [withFile, closeSuperseded, superseded, hunknown, Machine.close,
        Machine.setChannel, Machine.channel?, Machine.addChannel]
    have hstays := closed_openFrom hclosed
      (r.send redirect.target m.channels.length) cwd (files.map Prod.fst)
    rwa [hopen] at hstays

/-- The last file for a stream is open, and every other file is closed. -/
theorem leaves_openFrom (hopens : m.volume.OpensAll cwd files w)
    (hbelow : r.IsBelow m.channels.length)
    (hopen : r.openFrom m cwd (files.map Prod.fst) = (opened, .ok final)) :
    r.Leaves m files final opened := by
  generalize hv : m.volume = v at hopens
  induction hopens generalizing r m with
  | nil v =>
      obtain ⟨-, hfinal⟩ := Prod.mk.inj hopen
      obtain rfl := Except.ok.inj hfinal
      constructor
      · intro sink number file hlast
        simpa using hlast.file_eq
      · intro sink _
        rfl
      · intro number file hfile
        simp at hfile
  | @cons v next w redirect opening files hfirst _ ih =>
      subst hv
      rw [List.map_cons, openFrom_cons hfirst] at hopen
      have hrest := ih (hbelow.withFile hfirst) hopen (volume_withFile ..)
      -- The files behind the first one are numbered from the row behind its row.
      have hlength (number : Nat) :
          (r.withFile m next redirect opening).channels.length + number =
            m.channels.length + (number + 1) := by
        rw [length_withFile]
        omega
      constructor
      · intro sink number file hlast
        cases number with
        | zero =>
            obtain rfl : (redirect, opening) = file := Option.some.inj hlast.file_eq
            exact last_of_first hbelow hfirst hlast hopen
        | succ number =>
            rw [← hlength]
            exact hrest.last sink number file ⟨hlast.file_eq, hlast.same, hlast.others⟩
      · intro sink hnone
        rw [hrest.before sink fun file hmem => hnone file (List.mem_cons_of_mem _ hmem)]
        exact row?_send_of_ne (hnone _ List.mem_cons_self)
      · intro number file hfileAt hnot
        cases number with
        | zero =>
            obtain rfl : (redirect, opening) = file := Option.some.inj hfileAt
            exact closed_of_first hbelow hfirst hnot hopen
        | succ number =>
            rw [← hlength]
            refine hrest.closed number file hfileAt fun sink hlast => hnot sink ?_
            exact ⟨hlast.file_eq, hlast.same, hlast.others⟩

/-- The redirects of a command are opened in order. If all of them can be opened, each stream leads
to the file that was opened last for it, or where it led before. All other files are closed, and
they stay so whatever the command writes, which changes no place but those to which its streams
lead. If there is no way to open one of them, the error names its path, the ones before it have been
opened, and nothing else has happened on the machine or in the shell when the command is given
up. -/
theorem opened_in_order (m : Machine) (cwd : WorkingDirectory) (redirects : List Redirect) :
    (∃ files w opened r, files.map Prod.fst = redirects ∧ m.volume.OpensAll cwd files w ∧
      openAll m cwd redirects = (opened, .ok r) ∧ opened.volume = w ∧ m.Extends opened ∧
      none.Leaves m files r opened ∧
      ∀ streams writes,
        (∀ row, opened.channel? row = some .closed →
          (opened.writeAll (r.apply streams) writes).channel? row = some .closed) ∧
        ∀ spot, (∀ sink serial access,
            opened.opened? ((r.apply streams).row sink) ≠ some (spot, serial, access)) →
          (opened.writeAll (r.apply streams) writes).volume.find? spot = w.find? spot) ∨
    ∃ files redirect later w fault opened,
      redirects = files.map Prod.fst ++ redirect :: later ∧ m.volume.OpensAll cwd files w ∧
      (∀ next opening, ¬w.Opens cwd redirect next opening) ∧
      openAll m cwd redirects = (opened, .error (.redirectOpen redirect.path fault)) ∧
      opened.volume = w ∧ m.Extends opened ∧
      ∀ host shell command, shell.directory = cwd → command.redirects = redirects →
        Execution.single host shell m command =
          (opened, shell, .error (.redirectOpen redirect.path fault)) := by
  have hnone : ∀ target row, none.row? target = some row → m.channels.length ≤ row := by
    intro target row hrow
    simp [row?_none] at hrow
  have hself : m.Extends m := ⟨List.prefix_rfl, rfl, rfl, rfl⟩
  rcases Volume.exists_opensAll m.volume cwd redirects with ⟨files, w, rfl, hopens⟩ |
    ⟨files, redirect, later, w, rfl, hopens, hnever⟩
  · obtain ⟨opened, r, hopen, rfl⟩ := exists_openFrom hopens none
    refine .inl ⟨files, opened.volume, opened, r, rfl, hopens, hopen, rfl,
      extends_openFrom hopens hself hnone hopen,
      leaves_openFrom hopens (isBelow_none _) hopen, ?_⟩
    intro streams writes
    exact ⟨fun row hclosed => Machine.closed_writeAll hclosed _ writes,
      fun spot hapart => Machine.find?_writeAll hapart writes⟩
  · obtain ⟨fault, hfault⟩ := Volume.exists_openForWriting_eq_error_iff.mpr hnever
    obtain ⟨opened, r, hopen, rfl⟩ := exists_openFrom hopens none
    have hrefused : opened.openFile cwd redirect.path redirect.append = .error fault := by
      simp only [Machine.openFile, hfault]
    have hresult : openAll m cwd (files.map Prod.fst ++ redirect :: later) =
        (opened, .error (.redirectOpen redirect.path fault)) := by
      rw [openAll, openFrom_append hopen]
      simp only [openFrom, hrefused]
    refine .inr ⟨files, redirect, later, opened.volume, fault, opened, rfl, hopens, hnever, hresult,
      rfl, extends_openFrom hopens hself hnone hopen, ?_⟩
    intro host shell command hdirectory hredirects
    simp only [Execution.single, hdirectory, hredirects, hresult]

end Redirection

end LineShell
