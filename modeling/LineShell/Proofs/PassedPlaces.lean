import LineShell.Proofs.PathsAfterWriting
import LineShell.Program

/-!
# The places that a path leads past

Following a path asks for what stands at one place after another. A volume that answers these
questions as another one does leads the path to the same end, and what stands at any other place
makes no difference.

## Implementation notes

Files that are being changed cannot be run, so nobody who starts a program learns what they hold.
`Entry.outline` leaves the contents of such files out, and `Volume.Resembles` says that a volume
differs from another one by these contents, and by a file at one place.
-/

namespace LineShell

/-- An entry without the contents of a file that is being changed. -/
def Entry.outline (busy : Nat → Bool) : Entry → Entry
  | ⟨serial, .file contents permissions⟩ =>
    ⟨serial, .file (if busy serial then [] else contents) permissions⟩
  | entry => entry

/-- A destination without the contents of a file that is being changed. -/
def Destination.outline (busy : Nat → Bool) : Destination → Destination
  | .present place entry slash => .present place (entry.outline busy) slash
  | destination => destination

/-- The entry at a destination, with its location if it has one. -/
def Destination.found : Destination → Except FileFault (Option Location × Entry)
  | .vacant _ _ => .error (.refused .noEntry)
  | .removed directory => .ok (none, Volume.removedEntry directory)
  | .present place entry slash =>
    if slash && !entry.node.isDirectory then .error (.refused .notDirectory)
    else .ok (some place, entry)

namespace Volume

/-- The places for which following parts asks. -/
def passedBy (v : Volume) (here : Location) : List Path.Part → List Location
  | [] => [here]
  | part :: rest =>
    here ::
      match v.find? here with
      | none => []
      | some entry =>
        if !entry.node.isDirectory then []
        else if !entry.node.mayEnter then []
        else match part with
          | .here => passedBy v here rest
          | .above => passedBy v here.dropLast rest
          | .name name =>
            let place := here ++ [name]
            if name.spelling.length > longestName then []
            else match v.find? place with
              | some ⟨_, .link _⟩ => [place]
              | _ => passedBy v place rest

/-- The places for which following parts and links asks. -/
def passedTo (v : Volume) (last : LastLink) :
    Nat → Location → List Path.Part → Bool → List Location
  | links, here, parts, slash =>
    v.passedBy here parts ++
      match v.descend here parts with
      | .link place target rest =>
        if rest.isEmpty && last.stops slash then []
        else match links with
          | 0 => []
          | links + 1 =>
            passedTo v last links (if Path.isAbsolute target then [] else place.dropLast)
              (Path.parts target ++ rest) (slash || (rest.isEmpty && Path.endsInSlash target))
      | _ => []

/-- The places for which following a path asks. -/
def passed (v : Volume) (cwd : WorkingDirectory) (path : String) (last : LastLink) :
    List Location :=
  if (octets path).contains 0 ∨ octets path = [] ∨ (octets path).length ≥ longestPath then []
  else match v.origin cwd (octets path) with
    | .ok (.attached here parts) =>
      v.passedTo last mostLinks here parts (Path.endsInSlash path)
    | _ => []

/-- Two volumes have the same at a place, but for the contents of a file that is being changed. -/
def AgreeAt (busy : Nat → Bool) (v w : Volume) (spot : Location) : Prop :=
  (w.find? spot).map (Entry.outline busy) = (v.find? spot).map (Entry.outline busy)

end Volume

section Outline

variable {busy : Nat → Bool} {entry other : Entry}

theorem Entry.outline_serial (busy : Nat → Bool) (entry : Entry) :
    (entry.outline busy).serial = entry.serial := by
  obtain ⟨serial, node⟩ := entry
  cases node <;> rfl

theorem Entry.outline_isDirectory (busy : Nat → Bool) (entry : Entry) :
    (entry.outline busy).node.isDirectory = entry.node.isDirectory := by
  obtain ⟨serial, node⟩ := entry
  cases node <;> rfl

theorem Entry.isDirectory_eq_of_outline (h : other.outline busy = entry.outline busy) :
    other.node.isDirectory = entry.node.isDirectory := by
  rw [← Entry.outline_isDirectory busy other, h, Entry.outline_isDirectory]

theorem Entry.serial_eq_of_outline (h : other.outline busy = entry.outline busy) :
    other.serial = entry.serial := by
  rw [← Entry.outline_serial busy other, h, Entry.outline_serial]

/-- Only of a file something is left out. -/
theorem Entry.eq_of_outline (h : other.outline busy = entry.outline busy)
    (hnode : ∀ contents permissions, entry.node ≠ .file contents permissions) : other = entry := by
  obtain ⟨serial, node⟩ := entry
  obtain ⟨serial', node'⟩ := other
  cases node <;> cases node' <;> simp_all [Entry.outline]

end Outline

theorem Destination.found_outline (busy : Nat → Bool) (destination : Destination) :
    (destination.outline busy).found =
      destination.found.map fun found => (found.1, found.2.outline busy) := by
  cases destination with
  | vacant | removed => rfl
  | present place entry slash =>
      simp only [Destination.outline, Destination.found, Entry.outline_isDirectory]
      split <;> rfl

namespace Volume

theorem lookUp_eq_bind (v : Volume) (cwd : WorkingDirectory) (path : String) (last : LastLink) :
    v.lookUp cwd path last = (v.locate cwd path last).bind Destination.found := by
  unfold lookUp
  cases v.locate cwd path last with
  | error fault => rfl
  | ok destination => cases destination <;> rfl

variable {busy : Nat → Bool} {v w : Volume} {here spot place : Location} {parts : List Path.Part}
  {last : LastLink} {cwd : WorkingDirectory} {path : String} {entry : Entry}

namespace AgreeAt

theorem find?_none (h : AgreeAt busy v w spot) (hnone : v.find? spot = none) :
    w.find? spot = none := by
  simpa [AgreeAt, hnone] using h

theorem find?_some (h : AgreeAt busy v w spot) (hsome : v.find? spot = some entry) :
    ∃ found, w.find? spot = some found ∧ found.outline busy = entry.outline busy := by
  simpa [AgreeAt, hsome] using h

theorem find?_link (h : AgreeAt busy v w spot) {serial : Nat} {target : String}
    (hlink : v.find? spot = some ⟨serial, .link target⟩) :
    w.find? spot = some ⟨serial, .link target⟩ := by
  obtain ⟨found, hfound, houtline⟩ := h.find?_some hlink
  rw [hfound, Entry.eq_of_outline houtline (by simp)]

/-- A directory is the same in both volumes. -/
theorem find?_directory (h : AgreeAt busy v w spot) (hentry : v.find? spot = some entry)
    (hdirectory : ¬(!entry.node.isDirectory) = true) : w.find? spot = some entry := by
  obtain ⟨found, hfound, houtline⟩ := h.find?_some hentry
  rw [hfound, Entry.eq_of_outline houtline]
  rintro contents permissions hfile
  simp [hfile, Node.isDirectory] at hdirectory

end AgreeAt

theorem mem_passedBy (v : Volume) (here : Location) (parts : List Path.Part) :
    here ∈ v.passedBy here parts := by
  cases parts <;> simp [passedBy]

/-- A link is a link in both volumes. -/
theorem AgreeAt.not_link (h : AgreeAt busy v w spot) {found : Entry}
    (hlink : ∀ serial target, v.find? spot = some ⟨serial, .link target⟩ → False)
    (hfound : w.find? spot = some found) (serial : Nat) (target : String) :
    found = ⟨serial, .link target⟩ → False := by
  rintro rfl
  have hback : AgreeAt busy w v spot := Eq.symm h
  exact hlink serial target (hback.find?_link hfound)

/-- Behind an entry that is no link, following parts asks for the places that lie further on. -/
theorem passedBy_name {name : Name} {rest : List Path.Part} (hhere : v.find? here = some entry)
    (hdirectory : ¬(!entry.node.isDirectory) = true) (henter : ¬(!entry.node.mayEnter) = true)
    (hlength : ¬name.spelling.length > longestName)
    (hlink : ∀ serial target, v.find? (here ++ [name]) = some ⟨serial, .link target⟩ → False) :
    v.passedBy here (.name name :: rest) = here :: v.passedBy (here ++ [name]) rest := by
  simp only [passedBy, hhere, if_neg hdirectory, if_neg henter, if_neg hlength]

/-- A walk that asks for places where two volumes agree halts in both of them at the same place. -/
theorem descend_congr (h : ∀ spot ∈ v.passedBy here parts, AgreeAt busy v w spot) :
    w.descend here parts = v.descend here parts := by
  -- A walk goes on from directories only, and these are the same in both volumes.
  have hstart := h here (mem_passedBy v here parts)
  fun_induction Volume.descend v here parts with
  | case1 here => rfl
  | case2 here part rest hnone => simp only [Volume.descend, hstart.find?_none hnone]
  | case3 here part rest entry hhere hfile =>
      obtain ⟨found, hfound, houtline⟩ := hstart.find?_some hhere
      simp only [Volume.descend, hfound, Entry.isDirectory_eq_of_outline houtline, hfile, if_true]
  | case4 here part rest entry hhere hdirectory hclosed =>
      simp only [Volume.descend, hstart.find?_directory hhere hdirectory, if_neg hdirectory,
        hclosed, if_true]
  | case5 here rest entry hhere hdirectory henter ih
  | case6 here rest entry hhere hdirectory henter ih =>
      simp only [passedBy, hhere, if_neg hdirectory, if_neg henter, List.forall_mem_cons] at h
      simp only [Volume.descend, hstart.find?_directory hhere hdirectory, if_neg hdirectory,
        if_neg henter]
      exact ih h.2 (h.2 _ (mem_passedBy v _ rest))
  | case7 here rest entry hhere hdirectory henter name hlength =>
      simp only [Volume.descend, hstart.find?_directory hhere hdirectory, if_neg hdirectory,
        if_neg henter, hlength, if_true]
  | case8 here rest entry hhere hdirectory henter name place hlength hnone hlast =>
      rw [passedBy_name hhere hdirectory henter hlength (by simp [place, hnone])] at h
      have hplace := h _ (List.mem_cons_of_mem _ (mem_passedBy v _ rest))
      simp only [Volume.descend, hstart.find?_directory hhere hdirectory, if_neg hdirectory,
        if_neg henter, if_neg hlength, hplace.find?_none hnone, hlast, if_true]
      rfl
  | case9 here rest entry hhere hdirectory henter name place hlength hnone hmore =>
      rw [passedBy_name hhere hdirectory henter hlength (by simp [place, hnone])] at h
      have hplace := h _ (List.mem_cons_of_mem _ (mem_passedBy v _ rest))
      simp only [Volume.descend, hstart.find?_directory hhere hdirectory, if_neg hdirectory,
        if_neg henter, if_neg hlength, hplace.find?_none hnone, if_neg hmore]
  | case10 here rest entry hhere hdirectory henter name place hlength serial target hlink =>
      have hplace : here ++ [name] ∈ v.passedBy here (.name name :: rest) := by
        simp [passedBy, hhere, hdirectory, henter, hlength, place, hlink]
      simp only [Volume.descend, hstart.find?_directory hhere hdirectory, if_neg hdirectory,
        if_neg henter, if_neg hlength, (h _ hplace).find?_link hlink]
      rfl
  | case11 here rest entry hhere hdirectory henter name place hlength next hlink hnext ih =>
      have hnode : ∀ serial target,
          v.find? (here ++ [name]) = some ⟨serial, .link target⟩ → False :=
        fun serial target hfound => hlink serial target (Option.some.inj (hnext.symm.trans hfound))
      rw [passedBy_name hhere hdirectory henter hlength hnode, List.forall_mem_cons] at h
      have hplace := h.2 _ (mem_passedBy v _ rest)
      obtain ⟨other, hother, -⟩ := hplace.find?_some hnext
      rw [descend_name (hstart.find?_directory hhere hdirectory) hdirectory henter hlength hother
        (hplace.not_link hnode hother)]
      exact ih h.2 hplace

/-- A walk asks for the place where it comes to its end or meets a link. -/
theorem mem_passedBy_of_descend
    (h : v.descend here parts = .found spot ∨
      ∃ target rest, v.descend here parts = .link spot target rest) :
    spot ∈ v.passedBy here parts := by
  fun_induction Volume.descend v here parts with
  | case1 here =>
      rcases h with hfound | ⟨target, rest, hlink⟩
      · obtain rfl := Halt.found.inj hfound
        exact mem_passedBy v here []
      · simp at hlink
  | case2 | case3 | case4 | case7 | case8 | case9 => simp at h
  | case5 here rest entry hhere hdirectory henter ih
  | case6 here rest entry hhere hdirectory henter ih =>
      simp only [passedBy, hhere, hdirectory, henter]
      exact List.mem_cons_of_mem _ (ih h)
  | case10 here rest entry hhere hdirectory henter name place hlength serial target hlink =>
      have hspot : place = spot := by simpa using h
      subst hspot
      simp [passedBy, hhere, hdirectory, henter, hlength, place, hlink]
  | case11 here rest entry hhere hdirectory henter name place hlength found hlink hplace ih =>
      rw [passedBy_name hhere hdirectory henter hlength fun serial target hfound =>
        hlink serial target (Option.some.inj (hplace.symm.trans hfound))]
      exact List.mem_cons_of_mem _ (ih h)

/-- A walk over links ends in both volumes at the same place. -/
theorem resolve_congr {links : Nat} {slash : Bool}
    (h : ∀ spot ∈ v.passedTo last links here parts slash, AgreeAt busy v w spot) :
    (w.resolve last links here parts slash).map (Destination.outline busy) =
      (v.resolve last links here parts slash).map (Destination.outline busy) := by
  have hwalk {links : Nat} {here : Location} {parts : List Path.Part} {slash : Bool}
      (h : ∀ spot ∈ v.passedTo last links here parts slash, AgreeAt busy v w spot) :
      ∀ spot ∈ v.passedBy here parts, AgreeAt busy v w spot := by
    intro spot hspot
    rw [passedTo] at h
    exact h spot (List.mem_append_left _ hspot)
  fun_induction Volume.resolve v last links here parts slash with
  | case1 links here parts slash spot hhalt entry hspot =>
      have hspot' := hwalk h spot (mem_passedBy_of_descend (.inl hhalt))
      obtain ⟨found, hfound, houtline⟩ := hspot'.find?_some hspot
      rw [Volume.resolve, descend_congr (hwalk h), hhalt]
      simp [hfound, Except.map, Destination.outline, houtline]
  | case2 links here parts slash spot hhalt hnone =>
      have hspot := hwalk h spot (mem_passedBy_of_descend (.inl hhalt))
      rw [Volume.resolve, descend_congr (hwalk h), hhalt]
      simp [hspot.find?_none hnone]
  | case3 links here parts slash spot hhalt =>
      rw [Volume.resolve, descend_congr (hwalk h), hhalt]
  | case4 links here parts slash e hhalt =>
      rw [Volume.resolve, descend_congr (hwalk h), hhalt]
  | case5 links here parts slash spot target rest hhalt hstops entry hspot =>
      have hspot' := hwalk h spot (mem_passedBy_of_descend (.inr ⟨target, rest, hhalt⟩))
      obtain ⟨found, hfound, houtline⟩ := hspot'.find?_some hspot
      rw [Volume.resolve, descend_congr (hwalk h), hhalt]
      simp [hstops, hfound, Except.map, Destination.outline, houtline]
  | case6 links here parts slash spot target rest hhalt hstops hnone =>
      have hspot := hwalk h spot (mem_passedBy_of_descend (.inr ⟨target, rest, hhalt⟩))
      rw [Volume.resolve, descend_congr (hwalk h), hhalt]
      simp [hstops, hspot.find?_none hnone]
  | case7 here parts slash spot target rest hhalt hgo =>
      rw [Volume.resolve, descend_congr (hwalk h), hhalt]
      simp only [hgo]
      rfl
  | case8 here parts slash spot target rest hhalt hgo links ih =>
      rw [Volume.resolve, descend_congr (hwalk h), hhalt]
      simp only [hgo]
      apply ih
      intro other hother
      apply h
      rw [passedTo, hhalt]
      simp only [hgo]
      exact List.mem_append_right _ hother

/-- A path leads to the same end if the volumes agree at the places that it asks for. -/
theorem locate_congr (horigin : w.origin cwd (octets path) = v.origin cwd (octets path))
    (h : ∀ spot ∈ v.passed cwd path last, AgreeAt busy v w spot) :
    (w.locate cwd path last).map (Destination.outline busy) =
      (v.locate cwd path last).map (Destination.outline busy) := by
  simp only [passed] at h
  simp only [locate, walk, horigin]
  split
  case isTrue => rfl
  case isFalse hnul =>
    split
    case isTrue => rfl
    case isFalse hempty =>
      split
      case isTrue => rfl
      case isFalse hlong =>
        rw [if_neg (not_or.mpr ⟨hnul, not_or.mpr ⟨hempty, hlong⟩⟩)] at h
        cases hfrom : v.origin cwd (octets path) with
        | error e => rfl
        | ok origin =>
            cases origin with
            | removed directory => rfl
            | attached here parts =>
                simp only [hfrom] at h
                have hresolve := resolve_congr h
                dsimp only
                cases hv : v.resolve last mostLinks here parts (Path.endsInSlash path) <;>
                  cases hw : w.resolve last mostLinks here parts (Path.endsInSlash path) <;>
                  simp_all [Except.map, Path.endsInSlash]

/-- A volume with another one's entries, but for the contents of files that are being changed, and
with a file or nothing at one place where the other one has nothing. -/
structure Resembles (v : Volume) (busy : Nat → Bool) (place : Location) (w : Volume) : Prop where
  vacant : v.find? place = none
  own : ∀ entry, w.find? place = some entry → entry.node.isDirectory = false
  others : ∀ spot, spot ≠ place → AgreeAt busy v w spot

namespace Resembles

variable {found : Option Location × Entry}

theorem isAttached (h : v.Resembles busy place w) (cwd : WorkingDirectory) :
    w.isAttached cwd = v.isAttached cwd := by
  simp only [Volume.isAttached]
  split
  · rfl
  · rename_i serial' _
    by_cases hplace : cwd.place = place
    · rw [hplace, h.vacant]
      cases hown : w.find? place with
      | none => rfl
      | some entry => simp [h.own entry hown]
    · have hagree := h.others _ hplace
      cases hentry : v.find? cwd.place with
      | none => rw [hagree.find?_none hentry]
      | some entry =>
          obtain ⟨found, hfound, houtline⟩ := hagree.find?_some hentry
          simp [hfound, Entry.isDirectory_eq_of_outline houtline,
            Entry.serial_eq_of_outline houtline]

theorem pathOfDirectory (h : v.Resembles busy place w) (cwd : WorkingDirectory) :
    w.pathOfDirectory cwd = v.pathOfDirectory cwd := by
  simp only [Volume.pathOfDirectory, h.isAttached]

/-- A path that does not lead past the place leads to the same end. -/
theorem locate (h : v.Resembles busy place w) (hpassed : place ∉ v.passed cwd path last) :
    (w.locate cwd path last).map (Destination.outline busy) =
      (v.locate cwd path last).map (Destination.outline busy) := by
  apply locate_congr (origin_congr h.isAttached cwd (octets path))
  intro spot hspot
  apply h.others
  rintro rfl
  exact hpassed hspot

theorem lookUp (h : v.Resembles busy place w) (hpassed : place ∉ v.passed cwd path last) :
    (w.lookUp cwd path last).map (fun found => (found.1, found.2.outline busy)) =
      (v.lookUp cwd path last).map (fun found => (found.1, found.2.outline busy)) := by
  have hfound (u : Volume) :
      (u.lookUp cwd path last).map (fun found => (found.1, found.2.outline busy)) =
        ((u.locate cwd path last).map (Destination.outline busy)).bind Destination.found := by
    rw [lookUp_eq_bind]
    cases u.locate cwd path last with
    | error fault => rfl
    | ok destination => exact (Destination.found_outline busy destination).symm
  rw [hfound, hfound, h.locate hpassed]

theorem reaches (h : v.Resembles busy place w) (hpassed : place ∉ v.passed cwd path .follow) :
    w.reaches cwd path = v.reaches cwd path := by
  have hlook := h.lookUp hpassed
  simp only [Volume.reaches]
  cases hv : v.lookUp cwd path .follow <;> cases hw : w.lookUp cwd path .follow <;>
    simp_all [Except.map, Except.isOk, Except.toBool]

/-- Where an entry may be added to one volume, it may be added to the other. -/
theorem mayChangeAt (h : v.Resembles busy place w) (hallowed : v.mayChangeAt spot = true) :
    w.mayChangeAt spot = true := by
  obtain ⟨entry, hentry, hchange⟩ := (Option.any_eq_true _ _).mp hallowed
  have hother : spot.dropLast ≠ place := by
    rintro rfl
    simp [h.vacant] at hentry
  have hdirectory : ¬(!entry.node.isDirectory) = true := by
    cases hnode : entry.node <;> simp_all [Node.mayChange, Node.isDirectory]
  simp [Volume.mayChangeAt, (h.others _ hother).find?_directory hentry hdirectory, hchange]

/-- What is vacant is vacant in a volume that has nothing at the place either. -/
theorem locate_vacant (h : v.Resembles busy place w) (hnone : w.find? place = none) {slash : Bool}
    (hvacant : v.locate cwd path last = .ok (.vacant spot slash)) :
    w.locate cwd path last = .ok (.vacant spot slash) := by
  have hlocate : (w.locate cwd path last).map (Destination.outline busy) =
      (v.locate cwd path last).map (Destination.outline busy) := by
    apply locate_congr (origin_congr h.isAttached cwd (octets path))
    intro other _
    by_cases hother : other = place
    · rw [hother, AgreeAt, hnone, h.vacant]
    · exact h.others other hother
  rw [hvacant] at hlocate
  cases hw : w.locate cwd path last with
  | error fault => simp [hw, Except.map] at hlocate
  | ok destination =>
      rw [hw] at hlocate
      cases destination with
      | vacant => exact congrArg Except.ok (Except.ok.inj hlocate)
      | removed | present => simp [Except.map, Destination.outline] at hlocate

theorem remove (h : v.Resembles busy place w) : v.Resembles busy place (w.remove place) where
  vacant := h.vacant
  own entry hentry := by simp at hentry
  others other hother := by
    rw [AgreeAt, find?_remove, if_neg hother]
    exact h.others other hother

end Resembles

end Volume

/-- What a path leads to stands somewhere in the volume, unless it is a directory. -/
theorem Volume.exists_spot_of_lookUp {v : Volume} {cwd : WorkingDirectory} {path : String}
    {last : LastLink} {place : Option Location} {entry : Entry}
    (h : v.lookUp cwd path last = .ok (place, entry)) :
    (∃ spot, v.find? spot = some entry) ∨ entry.node.isDirectory = true := by
  rw [lookUp_eq_bind] at h
  cases hlocate : v.locate cwd path last with
  | error fault => simp [hlocate, Except.bind] at h
  | ok destination =>
      rw [hlocate] at h
      cases destination with
      | vacant spot slash => simp [Except.bind, Destination.found] at h
      | removed directory =>
          obtain ⟨-, rfl⟩ := Prod.mk.inj (Except.ok.inj h)
          exact .inr rfl
      | present spot found slash =>
          simp only [Except.bind, Destination.found] at h
          split at h
          · simp at h
          · obtain ⟨-, rfl⟩ := Prod.mk.inj (Except.ok.inj h)
            exact .inl ⟨spot, agrees_of_locate hlocate⟩

/-- What can be started of an entry. -/
def Entry.startable (busy : Nat → Bool) : Entry → Except Errno Startable
  | ⟨_, .program name⟩ => .ok (.program name)
  | ⟨serial, .file contents permissions⟩ =>
    if !permissions.mayRun then .error .accessDenied
    else if busy serial then .error .textBusy
    else .ok (.script contents)
  | _ => .error .accessDenied

/-- A file that is being changed cannot be started, whatever it holds. -/
theorem Entry.startable_outline (busy : Nat → Bool) (entry : Entry) :
    (entry.outline busy).startable busy = entry.startable busy := by
  obtain ⟨serial, node⟩ := entry
  cases node with
  | file contents permissions =>
      simp only [Entry.outline, startable]
      cases busy serial <;> rfl
  | program | directory | link | device => rfl

theorem Entry.startable_congr {busy other : Nat → Bool} {entry : Entry}
    (h : entry.node.isDirectory = false → other entry.serial = busy entry.serial) :
    entry.startable other = entry.startable busy := by
  obtain ⟨serial, node⟩ := entry
  cases node with
  | file contents permissions => simp only [startable, h rfl]
  | program | directory | link | device => rfl

namespace Machine

variable {m x : Machine} {place : Location} {cwd : WorkingDirectory} {path : String}

theorem openToRun_of_lookUp {found : Option Location × Entry}
    (h : m.volume.lookUp cwd path .follow = .ok found) :
    m.openToRun cwd path = found.2.startable m.isBeingChanged := by
  obtain ⟨spot, serial, node⟩ := found
  cases node <;> simp only [openToRun, h, Entry.startable]

/-- A program or script can be run as before when only files were written that cannot be run. -/
theorem openToRun_congr (h : m.volume.Resembles m.isBeingChanged place x.volume)
    (hbusy : ∀ spot entry, m.volume.find? spot = some entry →
      x.isBeingChanged entry.serial = m.isBeingChanged entry.serial)
    (hpassed : place ∉ m.volume.passed cwd path .follow) :
    x.openToRun cwd path = m.openToRun cwd path := by
  have hlook := h.lookUp hpassed
  cases hm : m.volume.lookUp cwd path .follow with
  | error fault =>
      have hx : x.volume.lookUp cwd path .follow = .error fault := by
        cases hx : x.volume.lookUp cwd path .follow <;> simp_all [Except.map]
      cases fault <;> simp only [openToRun, hm, hx]
  | ok found =>
      obtain ⟨found', hx, houtline⟩ : ∃ found', x.volume.lookUp cwd path .follow = .ok found' ∧
          found'.2.outline m.isBeingChanged = found.2.outline m.isBeingChanged := by
        cases hx : x.volume.lookUp cwd path .follow <;> simp_all [Except.map]
      have hsame : found'.2.startable x.isBeingChanged = found'.2.startable m.isBeingChanged := by
        apply Entry.startable_congr
        intro hfile
        rw [Entry.serial_eq_of_outline houtline]
        rcases Volume.exists_spot_of_lookUp hm with ⟨spot, hspot⟩ | hdirectory
        · exact hbusy spot _ hspot
        · rw [Entry.isDirectory_eq_of_outline houtline, hdirectory] at hfile
          simp at hfile
      calc
        x.openToRun cwd path = found'.2.startable x.isBeingChanged := openToRun_of_lookUp hx
        _ = (found'.2.outline m.isBeingChanged).startable m.isBeingChanged := by
          rw [hsame, Entry.startable_outline]
        _ = found.2.startable m.isBeingChanged := by rw [houtline, Entry.startable_outline]
        _ = m.openToRun cwd path := (openToRun_of_lookUp hm).symm

end Machine

end LineShell
