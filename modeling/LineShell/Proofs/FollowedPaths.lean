import LineShell.Proofs.PathsAfterWriting
import Mathlib.Data.List.Flatten

/-!
# Paths that are collapsed and paths that are followed

A path is collapsed as a text: every `..` takes the name before it away. Followed from directory to
directory, `..` goes up from wherever the walk is. `Volume.Follows` is the second of these, step by
step and without a word on texts. In a volume without links a walk is never anywhere but at its
names with every `..` taken out, so the collapsed path leads where the path leads. It may lead
there although the path does not: the names that were taken away need not exist. If every beginning
of the path leads to a directory, both lead to a directory or none of them does.
-/

namespace LineShell

namespace Path

variable {before : List Name} {parts : List Part}

/-- The name of a part that has one. -/
def Part.name? : Part → Option Name
  | .name word => some word
  | .here | .above => none

theorem mem_names_iff {name : Name} : name ∈ parts.filterMap Part.name? ↔ .name name ∈ parts := by
  rw [List.mem_filterMap]
  constructor
  · rintro ⟨part, hpart, hname⟩
    cases part with
    | here | above => simp [Part.name?] at hname
    | name word =>
        obtain rfl := Option.some.inj hname
        exact hpart
  · intro hpart
    exact ⟨.name name, hpart, rfl⟩

/-- A piece that is a name spells this name, and is no other part. -/
theorem Part.eq_of_ofPiece? {piece : Bytes} {name : Name}
    (h : Part.ofPiece? piece = some (.name name)) : name.spelling = piece := by
  unfold Part.ofPiece? at h
  split at h
  case isTrue => simp at h
  case isFalse =>
    split at h
    case isTrue => simp at h
    case isFalse =>
      split at h
      case isTrue => simp at h
      case isFalse =>
        obtain rfl := Part.name.inj (Option.some.inj h)
        exact Name.spelling_ofOctets piece

/-- Whether no `..` leads above the place where the parts start, with so many names before them. -/
def staysWithin : Nat → List Part → Bool
  | _, [] => true
  | depth, .here :: rest => staysWithin depth rest
  | 0, .above :: _ => false
  | depth + 1, .above :: rest => staysWithin depth rest
  | depth, .name _ :: rest => staysWithin (depth + 1) rest

theorem staysWithin_names (depth : Nat) (names : List Name) :
    staysWithin depth (names.map .name) = true := by
  induction names generalizing depth with
  | nil => rfl
  | cons name rest ih => exact ih (depth + 1)

end Path

namespace RawPath

variable {path : RawPath} {before names : List Name} {parts : List Path.Part}

/-- The names among the parts of a path stand in it as they are spelled. -/
theorem isPart_of_mem_parts {name : Name} (h : .name name ∈ RawPath.parts path) : name.IsPart := by
  obtain ⟨piece, hpiece, hpart⟩ := List.mem_filterMap.mp h
  have hspelling := Path.Part.eq_of_ofPiece? hpart
  exact ⟨hspelling ▸ hpart, hspelling ▸ not_mem_of_mem_cutAt hpiece⟩

/-- Collapsing takes names away and adds none. -/
theorem collapse_sublist (before : List Name) (parts : List Path.Part) :
    (collapse before parts).Sublist (before ++ parts.filterMap Path.Part.name?) := by
  induction parts generalizing before with
  | nil => simp [collapse]
  | cons part rest ih =>
      cases part with
      | here => exact ih before
      | above => exact (ih before.dropLast).trans ((List.dropLast_sublist before).append_right _)
      | name name => simpa [collapse, Path.Part.name?] using ih (before ++ [name])

theorem mem_of_mem_collapse {name : Name} (h : name ∈ collapse [] parts) : .name name ∈ parts :=
  Path.mem_names_iff.mp ((collapse_sublist [] parts).subset h)

theorem isPart_of_mem_collapse (name : Name) (h : name ∈ collapse [] (RawPath.parts path)) :
    name.IsPart :=
  isPart_of_mem_parts (mem_of_mem_collapse h)

/-- Names are collapsed already. -/
theorem collapse_names (before names : List Name) :
    collapse before (names.map .name) = before ++ names := by
  induction names generalizing before with
  | nil => simp [collapse]
  | cons name rest ih => simp [collapse, ih]

theorem parts_joinedNames (h : ∀ name ∈ names, name.IsPart) :
    RawPath.parts (joinedNames names) = names.map .name := by
  induction names with
  | nil => rfl
  | cons name rest ih =>
      have hname := (h name List.mem_cons_self).parts
      have hrest := ih fun other hmem => h other (List.mem_cons_of_mem _ hmem)
      cases rest with
      | nil => exact hname
      | cons next rest => rw [joinedNames, parts_append_slash, hname, hrest]; rfl

/-- The path of names is cut into these names again. -/
theorem parts_ofNames (h : ∀ name ∈ names, name.IsPart) :
    RawPath.parts (ofNames true names) = names.map .name := by
  rw [ofNames, if_pos rfl, List.singleton_append, parts_slash_cons, parts_joinedNames h]

theorem isAbsolute_ofNames (names : List Name) : isAbsolute (ofNames true names) = true := by
  simp [isAbsolute, ofNames]

theorem normalise_eq (habsolute : isAbsolute path = true) :
    normalise path = ofNames true (collapse [] (RawPath.parts path)) := by
  rw [normalise, habsolute]

/-- Names with a slash before each of them. -/
def slashed (names : List Name) : RawPath := names.flatMap fun name => slash :: name.spelling

theorem ofNames_cons (name : Name) (names : List Name) :
    ofNames true (name :: names) = slashed (name :: names) := by
  induction names generalizing name with
  | nil => simp [ofNames, joinedNames, slashed]
  | cons next rest ih =>
      have hrest := ih next
      simp only [ofNames, slashed, if_true, List.flatMap_cons] at hrest ⊢
      simp [joinedNames, ← hrest]

theorem flatMap_cutAt (separator : UInt8) (path : RawPath) :
    (cutAt separator path).flatMap (separator :: ·) = separator :: path := by
  induction path with
  | nil => rfl
  | cons octet rest ih =>
      rw [cutAt]
      split
      case isTrue hsame => simp [ih, hsame]
      case isFalse =>
        obtain ⟨piece, pieces, hcut⟩ := List.exists_cons_of_ne_nil (cutAt_ne_nil separator rest)
        rw [hcut] at ih ⊢
        simpa using ih

/-- The names among pieces of a path, with a slash before each of them, are found in the path. -/
theorem slashed_sublist (pieces : List Bytes) :
    (slashed ((pieces.filterMap Path.Part.ofPiece?).filterMap Path.Part.name?)).Sublist
      (pieces.flatMap (slash :: ·)) := by
  induction pieces with
  | nil => exact List.Sublist.refl _
  | cons piece rest ih =>
      rw [List.flatMap_cons]
      have hskip := ih.trans (List.sublist_append_right (slash :: piece) _)
      cases hpart : Path.Part.ofPiece? piece with
      | none => simpa only [List.filterMap_cons, hpart] using hskip
      | some part =>
          cases part with
          | here | above => simpa only [List.filterMap_cons, hpart, Path.Part.name?] using hskip
          | name name =>
              simp only [List.filterMap_cons, hpart, Path.Part.name?, slashed, List.flatMap_cons,
                Path.Part.eq_of_ofPiece? hpart]
              exact ih.append_left _

/-- An absolute path is collapsed by taking octets away. -/
theorem normalise_sublist (habsolute : isAbsolute path = true) :
    (normalise path).Sublist path := by
  rw [normalise_eq habsolute]
  rw [isAbsolute, beq_iff_eq, List.head?_eq_some_iff] at habsolute
  obtain ⟨rest, rfl⟩ := habsolute
  have hparts : RawPath.parts (slash :: rest) =
      (cutAt slash rest).filterMap Path.Part.ofPiece? := by
    rw [RawPath.parts, cutAt, if_pos rfl]
    rfl
  cases hnames : collapse [] (RawPath.parts (slash :: rest)) with
  | nil => simp [ofNames, joinedNames]
  | cons name names =>
      have hpieces := slashed_sublist (cutAt slash rest)
      rw [flatMap_cutAt, ← hparts] at hpieces
      rw [ofNames_cons, ← hnames]
      exact ((collapse_sublist [] _).flatMap _).trans hpieces

end RawPath

/-- Symbolic links. -/
def Node.isLink : Node → Bool
  | .link _ => true
  | _ => false

namespace Volume

variable {v : Volume} {base here spot place : Location} {names : List Name}
  {parts : List Path.Part}

/-- Volumes without symbolic links. -/
def Unlinked (v : Volume) : Prop := ∀ row ∈ v.rows, row.2.node.isLink = false

instance (v : Volume) : Decidable v.Unlinked :=
  inferInstanceAs (Decidable (∀ row ∈ v.rows, row.2.node.isLink = false))

/-- Paths that the machine takes: without NUL, and neither they nor their names are too long. -/
structure Takes (path : RawPath) : Prop where
  not_nul : 0 ∉ path
  short : path.length < longestPath
  names_short : ∀ name, .name name ∈ RawPath.parts path → name.spelling.length ≤ longestName

/-- Following parts from a place, in steps that each start from a directory. The root is its own
parent. -/
inductive Follows (v : Volume) : Location → List Path.Part → Location → Prop where
  | done (here : Location) : Follows v here [] here
  | here {spot place rest} (hdirectory : v.isDirectory spot = true)
      (hrest : Follows v spot rest place) : Follows v spot (.here :: rest) place
  | above {spot place rest} (hdirectory : v.isDirectory spot = true)
      (hrest : Follows v spot.dropLast rest place) : Follows v spot (.above :: rest) place
  | name {spot place rest name} (hdirectory : v.isDirectory spot = true)
      (hentry : (v.find? (spot ++ [name])).isSome = true)
      (hrest : Follows v (spot ++ [name]) rest place) :
      Follows v spot (.name name :: rest) place

/-- A path is taken in its normal form if it is taken as it is. -/
theorem Takes.normalise {path : RawPath} (h : Takes path)
    (habsolute : RawPath.isAbsolute path = true) : Takes (RawPath.normalise path) := by
  have hsublist := RawPath.normalise_sublist habsolute
  refine ⟨fun hmem => h.not_nul (hsublist.subset hmem),
    Nat.lt_of_le_of_lt hsublist.length_le h.short, ?_⟩
  intro name hname
  rw [RawPath.normalise_eq habsolute, RawPath.parts_ofNames RawPath.isPart_of_mem_collapse] at hname
  obtain ⟨other, hmem, hsame⟩ := List.mem_map.mp hname
  obtain rfl := Path.Part.name.inj hsame
  exact h.names_short _ (RawPath.mem_of_mem_collapse hmem)

theorem Unlinked.not_link (h : v.Unlinked) {serial : Nat} {target : String} :
    v.find? spot ≠ some ⟨serial, .link target⟩ := by
  intro hlink
  have hrow := h _ (mem_of_lookup hlink)
  simp [Node.isLink] at hrow

theorem isDirectory_iff :
    v.isDirectory spot = true ↔
      ∃ entry, v.find? spot = some entry ∧ entry.node.isDirectory = true := by
  simp [isDirectory, Option.any_eq_true]

theorem descend_ne_link (hlinks : v.Unlinked) {target : String} {rest : List Path.Part} :
    v.descend here parts ≠ .link place target rest := by
  fun_induction Volume.descend v here parts with
  | case1 | case2 | case3 | case4 | case7 | case8 | case9 => simp
  | case5 here rest entry hhere hdirectory henter ih
  | case6 here rest entry hhere hdirectory henter ih => exact ih
  | case10 here rest entry hhere hdirectory henter name spot hlength serial target hlink =>
      exact absurd hlink hlinks.not_link
  | case11 here rest entry hhere hdirectory henter name spot hlength found hlink hfound ih =>
      exact ih

theorem mayEnter_iff :
    v.mayEnter spot = true ↔
      ∃ entry, v.find? spot = some entry ∧ entry.node.mayEnter = true := by
  simp [mayEnter, Option.any_eq_true]

theorem isDirectory_of_mayEnter (h : v.mayEnter spot = true) : v.isDirectory spot = true := by
  obtain ⟨entry, hfind, henter⟩ := mayEnter_iff.mp h
  refine isDirectory_iff.mpr ⟨entry, hfind, ?_⟩
  cases hnode : entry.node <;> simp_all [Node.mayEnter, Node.isDirectory]

namespace Follows

theorem append_iff {more : List Path.Part} :
    v.Follows here (parts ++ more) place ↔
      ∃ spot, v.Follows here parts spot ∧ v.Follows spot more place := by
  constructor
  · intro h
    induction parts generalizing here with
    | nil => exact ⟨here, .done here, h⟩
    | cons part rest ih =>
        cases h with
        | here hdirectory hrest =>
            obtain ⟨spot, hspot, hmore⟩ := ih hrest
            exact ⟨spot, .here hdirectory hspot, hmore⟩
        | above hdirectory hrest =>
            obtain ⟨spot, hspot, hmore⟩ := ih hrest
            exact ⟨spot, .above hdirectory hspot, hmore⟩
        | name hdirectory hentry hrest =>
            obtain ⟨spot, hspot, hmore⟩ := ih hrest
            exact ⟨spot, .name hdirectory hentry hspot, hmore⟩
  · rintro ⟨spot, hparts, hmore⟩
    induction hparts with
    | done => exact hmore
    | here hdirectory _ ih => exact .here hdirectory (ih hmore)
    | above hdirectory _ ih => exact .above hdirectory (ih hmore)
    | name hdirectory hentry _ ih => exact .name hdirectory hentry (ih hmore)

/-- A walk is at its names with every `..` taken out, behind what is left of where it began. All of
that is left exactly if no `..` led above it; only the root has nothing above. -/
theorem exists_kept (h : v.Follows (base ++ names) parts place) :
    ∃ kept, kept <+: base ∧ place = kept ++ RawPath.collapse names parts ∧
      (kept = base ↔ base = [] ∨ Path.staysWithin names.length parts = true) := by
  induction parts generalizing base names with
  | nil =>
      cases h
      exact ⟨base, List.prefix_rfl, rfl, by simp [Path.staysWithin]⟩
  | cons part rest ih =>
      cases h with
      | here _ hrest => exact ih hrest
      | above _ hrest =>
          rcases List.eq_nil_or_concat names with rfl | ⟨front, last, rfl⟩
          · rw [List.append_nil, ← List.append_nil base.dropLast] at hrest
            obtain ⟨kept, hkept, hplace, -⟩ := ih hrest
            refine ⟨kept, hkept.trans (List.dropLast_prefix base), hplace, ?_⟩
            have hlength := hkept.length_le
            rw [List.length_dropLast] at hlength
            constructor
            · rintro rfl
              have hempty : kept.length = 0 := by omega
              exact .inl (List.length_eq_zero_iff.mp hempty)
            · rintro (rfl | hstays)
              · exact List.prefix_nil.mp hkept
              · simp [Path.staysWithin] at hstays
          · rw [List.concat_eq_append] at hrest ⊢
            rw [← List.append_assoc, List.dropLast_concat] at hrest
            simpa [RawPath.collapse, Path.staysWithin] using ih hrest
      | name _ _ hrest =>
          rw [List.append_assoc] at hrest
          simpa [RawPath.collapse, Path.staysWithin] using ih hrest

theorem place_of_names (h : v.Follows base (names.map .name) place) : place = base ++ names := by
  rw [← List.append_nil base] at h
  obtain ⟨kept, -, hplace, hkept⟩ := exists_kept h
  rw [hkept.mpr (.inr (Path.staysWithin_names _ _))] at hplace
  simpa [RawPath.collapse_names] using hplace

/-- If the names so far lead to where the walk is, the collapsed path leads to where it ends, unless
the walk goes above where the names begin. -/
theorem collapse (h : v.Follows (base ++ names) parts place)
    (hnames : v.Follows base (names.map .name) (base ++ names))
    (hstays : base = [] ∨ Path.staysWithin names.length parts = true) :
    v.Follows base ((RawPath.collapse names parts).map .name) place := by
  induction parts generalizing names with
  | nil =>
      cases h
      exact hnames
  | cons part rest ih =>
      cases h with
      | here _ hrest => exact ih hrest hnames hstays
      | above _ hrest =>
          -- The walk by the names without their last one is where this walk came past.
          rcases List.eq_nil_or_concat names with rfl | ⟨front, last, rfl⟩
          · obtain rfl : base = [] := by simpa [Path.staysWithin] using hstays
            exact ih hrest hnames (.inl rfl)
          · rw [List.concat_eq_append] at hrest hnames hstays ⊢
            rw [← List.append_assoc, List.dropLast_concat] at hrest
            rw [List.map_append] at hnames
            obtain ⟨spot, hfront, -⟩ := append_iff.mp hnames
            have hspot := hfront.place_of_names
            have hwithin : base = [] ∨ Path.staysWithin front.length rest = true := by
              simpa [Path.staysWithin] using hstays
            simpa [RawPath.collapse] using ih hrest (hspot ▸ hfront) hwithin
      | @name _ _ _ name hdirectory hentry hrest =>
          have hlast : v.Follows (base ++ names) [.name name] (base ++ (names ++ [name])) := by
            rw [← List.append_assoc]
            exact .name hdirectory hentry (.done _)
          have hlonger : v.Follows base ((names ++ [name]).map .name)
              (base ++ (names ++ [name])) := by
            rw [List.map_append]
            exact append_iff.mpr ⟨_, hnames, hlast⟩
          refine ih (by simpa using hrest) hlonger ?_
          simpa [Path.staysWithin] using hstays

end Follows

/-- All directories from one place to another may be entered, both of these included. -/
def Admits (v : Volume) (base place : Location) : Prop :=
  ∀ spot, base <+: spot → spot <+: place → v.mayEnter spot = true

theorem admits_self_iff : v.Admits place place ↔ v.mayEnter place = true := by
  constructor
  · intro h
    exact h place List.prefix_rfl List.prefix_rfl
  · intro h spot hbase hspot
    rwa [hspot.eq_of_length_le hbase.length_le]

theorem Admits.isDirectory (h : v.Admits here place) (hbelow : here <+: place) :
    v.isDirectory place = true :=
  isDirectory_of_mayEnter (h place hbelow List.prefix_rfl)

theorem admits_iff_of_begins {name : Name} (h : here ++ [name] <+: place) :
    v.Admits here place ↔ v.mayEnter here = true ∧ v.Admits (here ++ [name]) place := by
  have hlonger : here <+: here ++ [name] := List.prefix_append here [name]
  constructor
  · intro hadmits
    exact ⟨hadmits here List.prefix_rfl (hlonger.trans h),
      fun spot hbase hspot => hadmits spot (hlonger.trans hbase) hspot⟩
  · rintro ⟨hhere, hadmits⟩ spot hbase hspot
    rcases List.prefix_or_prefix_of_prefix h hspot with hbehind | hbefore
    · exact hadmits spot hbehind hspot
    · rcases List.prefix_concat_iff.mp hbefore with rfl | hwithin
      · exact hadmits _ List.prefix_rfl hspot
      · rwa [hwithin.eq_of_length_le hbase.length_le]

/-- Without links a name is walked over if it stands in a directory that may be entered. -/
theorem descend_name_iff (hlinks : v.Unlinked) {name : Name} :
    v.descend here (.name name :: parts) = .found place ↔
      v.mayEnter here = true ∧ name.spelling.length ≤ longestName ∧
        (v.find? (here ++ [name])).isSome = true ∧
          v.descend (here ++ [name]) parts = .found place := by
  constructor
  · intro hdescend
    simp only [descend] at hdescend
    split at hdescend
    case h_1 => simp at hdescend
    case h_2 entry hhere =>
      split at hdescend
      case isTrue => simp at hdescend
      case isFalse =>
        split at hdescend
        case isTrue => simp at hdescend
        case isFalse henter =>
          split at hdescend
          case isTrue => simp at hdescend
          case isFalse hshort =>
            refine ⟨mayEnter_iff.mpr ⟨entry, hhere, by simpa using henter⟩,
              Nat.le_of_not_lt hshort, ?_⟩
            split at hdescend
            case h_1 => split at hdescend <;> simp at hdescend
            case h_2 => simp at hdescend
            case h_3 hfound => exact ⟨by simp [hfound], hdescend⟩
  · rintro ⟨henter, hshort, hfound, hrest⟩
    obtain ⟨entry, hhere, hnode⟩ := mayEnter_iff.mp henter
    obtain ⟨other, hother, hdirectory⟩ := isDirectory_iff.mp (isDirectory_of_mayEnter henter)
    obtain rfl : entry = other := Option.some.inj (hhere.symm.trans hother)
    obtain ⟨found, hfind⟩ := Option.isSome_iff_exists.mp hfound
    rw [descend_name hhere (by simp [hdirectory]) (by simp [hnode]) (Nat.not_lt_of_le hshort) hfind
      fun serial target hlink => hlinks.not_link (hlink ▸ hfind)]
    exact hrest

/-- Without links, names lead to a directory that may be entered exactly if following them leads
there, none of them is too long, and the directories on the way may be entered as well. -/
theorem descend_names_iff (hlinks : v.Unlinked) :
    v.descend here (names.map .name) = .found place ∧ v.mayEnter place = true ↔
      (∀ name ∈ names, name.spelling.length ≤ longestName) ∧
        v.Follows here (names.map .name) place ∧ v.Admits here place := by
  induction names generalizing here with
  | nil =>
      constructor
      · rintro ⟨hfound, henter⟩
        obtain rfl := Halt.found.inj hfound
        exact ⟨by simp, .done here, admits_self_iff.mpr henter⟩
      · rintro ⟨-, hfollows, hadmits⟩
        cases hfollows
        exact ⟨rfl, admits_self_iff.mp hadmits⟩
  | cons name rest ih =>
      rw [List.map_cons, descend_name_iff hlinks, List.forall_mem_cons]
      constructor
      · rintro ⟨⟨hhere, hshort, hfound, hdescend⟩, henter⟩
        obtain ⟨hrest, hfollows, hadmits⟩ := ih.mp ⟨hdescend, henter⟩
        have hbelow := hfollows.place_of_names
        exact ⟨⟨hshort, hrest⟩, .name (isDirectory_of_mayEnter hhere) hfound hfollows,
          (admits_iff_of_begins ⟨rest, hbelow.symm⟩).mpr ⟨hhere, hadmits⟩⟩
      · rintro ⟨⟨hshort, hrest⟩, hfollows, hadmits⟩
        cases hfollows with
        | name hdirectory hfound hfollows =>
            have hbelow := hfollows.place_of_names
            obtain ⟨hhere, hadmits⟩ := (admits_iff_of_begins ⟨rest, hbelow.symm⟩).mp hadmits
            obtain ⟨hdescend, henter⟩ := ih.mpr ⟨hrest, hfollows, hadmits⟩
            exact ⟨⟨hhere, hshort, hfound, hdescend⟩, henter⟩

/-- Without links a path that leads to an entry is walked in one go. -/
theorem resolve_eq_ok_iff (hlinks : v.Unlinked) {links : Nat} {entry : Entry} {slash asked : Bool} :
    v.resolve .follow links here parts slash = .ok (.present place entry asked) ↔
      v.descend here parts = .found place ∧ v.find? place = some entry ∧ slash = asked := by
  rw [resolve]
  cases hdescend : v.descend here parts with
  | found spot =>
      rw [Halt.found.injEq]
      dsimp only
      constructor
      · intro hresolve
        split at hresolve
        case h_1 found hfind =>
          obtain ⟨rfl, rfl, rfl⟩ := Destination.present.inj (Except.ok.inj hresolve)
          exact ⟨rfl, hfind, rfl⟩
        case h_2 => simp at hresolve
      · rintro ⟨rfl, hfind, rfl⟩
        simp only [hfind]
  | missing | refused => simp
  | link => exact absurd hdescend (descend_ne_link hlinks)

/-- What is entered is the directory that the path leads to, if one may be in it. -/
theorem enter_eq_ok {path : RawPath} {cwd there : WorkingDirectory} :
    v.enter cwd path = .ok there ↔
      v.walk cwd path .follow = .ok (.removed there) ∨
        ∃ place entry slash, v.walk cwd path .follow = .ok (.present place entry slash) ∧
          entry.node.isDirectory = true ∧ entry.node.mayEnter = true ∧
            there = v.directoryAt place := by
  unfold enter
  cases v.walk cwd path .follow with
  | error fault => simp
  | ok destination =>
      cases destination with
      | vacant => simp
      | removed directory => simp
      | present place entry slash =>
          dsimp only
          constructor
          · intro henter
            split at henter
            case isTrue => simp at henter
            case isFalse hdirectory =>
              split at henter
              case isFalse => simp at henter
              case isTrue hmay =>
                exact .inr ⟨place, entry, slash, rfl, by simpa using hdirectory, hmay,
                  (Except.ok.inj henter).symm⟩
          · rintro (hremoved | ⟨_, _, _, hpresent, hdirectory, hmay, rfl⟩)
            · simp at hremoved
            · obtain ⟨rfl, rfl, -⟩ := Destination.present.inj (Except.ok.inj hpresent)
              simp [hdirectory, hmay]

/-- Without links a path of names leads into the directory to which following the names leads, if
the machine takes the path and all directories from where it starts may be entered. -/
theorem enter_eq_ok_iff (hlinks : v.Unlinked) {path : RawPath} {cwd there : WorkingDirectory}
    (hparts : RawPath.parts path = names.map .name)
    (horigin : v.origin cwd path = .ok (.attached here (RawPath.parts path))) :
    v.enter cwd path = .ok there ↔
      path ≠ [] ∧ Takes path ∧ ∃ place, v.Follows here (names.map .name) place ∧
        v.Admits here place ∧ there = v.directoryAt place := by
  have hshort : (∀ name ∈ names, name.spelling.length ≤ longestName) ↔
      ∀ name, .name name ∈ RawPath.parts path → name.spelling.length ≤ longestName := by
    simp [hparts]
  rw [enter_eq_ok]
  constructor
  · rintro (hgone | ⟨place, entry, slash, hwalk, -, henter, rfl⟩)
    · obtain ⟨-, -, -, ⟨_, hremoved, -⟩ | ⟨_, _, -, hresolve⟩⟩ := walk_iff.mp hgone
      · simp [horigin] at hremoved
      · exact absurd hresolve (resolve_ne_removed there)
    · obtain ⟨hnul, hempty, hlength, ⟨_, -, hremoved⟩ | ⟨_, _, hfrom, hresolve⟩⟩ :=
        walk_iff.mp hwalk
      · cases hremoved
      · obtain ⟨rfl, rfl⟩ := Origin.attached.inj (Except.ok.inj (horigin.symm.trans hfrom))
        obtain ⟨hdescend, hfind, -⟩ := (resolve_eq_ok_iff hlinks).mp hresolve
        rw [hparts] at hdescend
        obtain ⟨hnames, hfollows, hadmits⟩ := (descend_names_iff hlinks).mp
          ⟨hdescend, mayEnter_iff.mpr ⟨entry, hfind, henter⟩⟩
        exact ⟨hempty, ⟨hnul, hlength, hshort.mp hnames⟩, place, hfollows, hadmits, rfl⟩
  · rintro ⟨hempty, htakes, place, hfollows, hadmits, rfl⟩
    obtain ⟨hdescend, henter⟩ := (descend_names_iff hlinks).mpr
      ⟨hshort.mpr htakes.names_short, hfollows, hadmits⟩
    obtain ⟨entry, hfind, hnode⟩ := mayEnter_iff.mp henter
    obtain ⟨other, hother, hdirectory⟩ := isDirectory_iff.mp (isDirectory_of_mayEnter henter)
    obtain rfl : entry = other := Option.some.inj (hfind.symm.trans hother)
    rw [← hparts] at hdescend
    have hresolve : v.resolve .follow mostLinks here (RawPath.parts path)
        (RawPath.endsInSlash path) = .ok (.present place entry (RawPath.endsInSlash path)) :=
      (resolve_eq_ok_iff hlinks).mpr ⟨hdescend, hfind, rfl⟩
    exact .inr ⟨place, entry, _, walk_iff.mpr ⟨htakes.not_nul, hempty, htakes.short,
      .inr ⟨here, _, horigin, hresolve⟩⟩, hdirectory, hnode, rfl⟩

end Volume

end LineShell
