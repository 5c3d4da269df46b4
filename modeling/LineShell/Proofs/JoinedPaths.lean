import LineShell.Proofs.PathOctets
import LineShell.Volume.Files

/-!
# Paths into a directory

A name joined to the path of a directory leads through this directory: whatever the joined path
reaches is an entry of the directory. The walk along the joined path is the walk to the directory
with one more step, also where links are met on the way.
-/

namespace LineShell

namespace Path

/-- Names that an entry of a directory can have. -/
def IsName (name : String) : Prop :=
  name ≠ "" ∧ name ≠ "." ∧ name ≠ ".." ∧ '/' ∉ name.toList

instance (name : String) : Decidable (IsName name) :=
  inferInstanceAs (Decidable (name ≠ "" ∧ name ≠ "." ∧ name ≠ ".." ∧ '/' ∉ name.toList))

end Path

namespace Name

/-- Names that can stand in a path, and those that are no text. -/
def IsProper : Name → Prop
  | .text name => Path.IsName name
  | .octets _ => True

instance : DecidablePred IsProper
  | .text name => inferInstanceAs (Decidable (Path.IsName name))
  | .octets _ => inferInstanceAs (Decidable True)

/-- Names that stand in a path as they are spelled. -/
structure IsPart (name : Name) : Prop where
  ofPiece : Path.Part.ofPiece? name.spelling = some (.name name)
  not_slash : RawPath.slash ∉ name.spelling

instance (name : Name) : Decidable name.IsPart :=
  decidable_of_iff
    (Path.Part.ofPiece? name.spelling = some (.name name) ∧ RawPath.slash ∉ name.spelling)
    ⟨fun h => ⟨h.1, h.2⟩, fun h => ⟨h.ofPiece, h.not_slash⟩⟩

end Name

/-- Names that are texts stand in a path if an entry can have them. -/
theorem Path.IsName.isPart {name : String} (h : Path.IsName name) : (Name.text name).IsPart := by
  obtain ⟨hempty, hhere, habove, hslash⟩ := h
  have hne (other : String) (hother : name ≠ other) : octets name ≠ octets other :=
    octets_injective.ne hother
  constructor
  · have hnothing : octets name ≠ [] := hne "" hempty
    have hdot : octets name ≠ [0x2E] := hne "." hhere
    have hdots : octets name ≠ [0x2E, 0x2E] := hne ".." habove
    rw [Name.spelling, Path.Part.ofPiece?, if_neg hnothing, if_neg hdot, if_neg hdots,
      Name.ofOctets_octets]
  · exact mt Utf8.isOctet_slash.mem_encode_iff.mp hslash

namespace RawPath

variable {base path : RawPath} {name : Name}

theorem parts_append_slash (a b : RawPath) : parts (a ++ slash :: b) = parts a ++ parts b := by
  simp only [parts, cutAt_append, List.filterMap_append]

/-- A slash at the front of a path is no part of it. -/
theorem parts_slash_cons (path : RawPath) : parts (slash :: path) = parts path := by
  rw [← List.nil_append (slash :: path), parts_append_slash]
  rfl

/-- A slash at the end of a path is no part of it. -/
theorem parts_append_of_endsInSlash (h : endsInSlash base = true) (path : RawPath) :
    parts (base ++ path) = parts base ++ parts path := by
  obtain ⟨stem, rfl⟩ : ∃ stem, base = stem ++ [slash] := by
    rw [endsInSlash, beq_iff_eq] at h
    exact List.getLast?_eq_some_iff.mp h
  have hnothing : parts (stem ++ [slash]) = parts stem := by
    rw [parts_append_slash, show parts [] = [] from rfl, List.append_nil]
  rw [hnothing, List.append_assoc, List.singleton_append, parts_append_slash]

/-- A relative path that is joined to a path has its parts behind those of the path. -/
theorem exists_join_eq (hbase : base ≠ []) (hpath : isAbsolute path = false) :
    ∃ gap, join base path = base ++ gap ++ path ∧
      parts (join base path) = parts base ++ parts path := by
  unfold join
  rw [hpath]
  by_cases hends : endsInSlash base = true
  · refine ⟨[], by simp [hends], ?_⟩
    simp only [hends, or_true, if_true, Bool.false_eq_true, if_false]
    exact parts_append_of_endsInSlash hends path
  · refine ⟨[slash], by simp [hends, hbase], ?_⟩
    simp only [hends, hbase, or_self, if_false, Bool.false_eq_true]
    exact parts_append_slash base path

theorem isAbsolute_append (hbase : base ≠ []) (path : RawPath) :
    isAbsolute (base ++ path) = isAbsolute base := by
  obtain ⟨octet, rest, rfl⟩ := List.exists_cons_of_ne_nil hbase
  simp [isAbsolute]

theorem isAbsolute_join_of_relative (hbase : base ≠ []) (hpath : isAbsolute path = false) :
    isAbsolute (join base path) = isAbsolute base := by
  obtain ⟨gap, hjoin, -⟩ := exists_join_eq hbase hpath
  rw [hjoin, List.append_assoc, isAbsolute_append hbase]

end RawPath

namespace Name.IsPart

variable {base : RawPath} {name : Name}

theorem spelling_ne_nil (h : name.IsPart) : name.spelling ≠ [] := by
  intro hempty
  have hpart := h.ofPiece
  rw [hempty] at hpart
  cases hpart

theorem parts (h : name.IsPart) : RawPath.parts name.spelling = [.name name] := by
  simp [RawPath.parts, cutAt_of_not_mem h.not_slash, h.ofPiece]

theorem not_isAbsolute (h : name.IsPart) : RawPath.isAbsolute name.spelling = false := by
  rw [RawPath.isAbsolute, beq_eq_false_iff_ne]
  exact fun hhead => h.not_slash (List.mem_of_head? hhead)

/-- A joined name is one more part, behind those of the path. -/
theorem join (h : name.IsPart) (hbase : base ≠ []) :
    ∃ gap, RawPath.join base name.spelling = base ++ gap ++ name.spelling ∧
      RawPath.parts (RawPath.join base name.spelling) = RawPath.parts base ++ [.name name] := by
  rw [← h.parts]
  exact RawPath.exists_join_eq hbase h.not_isAbsolute

theorem endsInSlash_join (h : name.IsPart) (hbase : base ≠ []) :
    RawPath.endsInSlash (RawPath.join base name.spelling) = false := by
  obtain ⟨gap, hjoin, -⟩ := h.join hbase
  rw [hjoin, RawPath.endsInSlash, List.getLast?_append, beq_eq_false_iff_ne,
    List.getLast?_eq_some_getLast h.spelling_ne_nil]
  intro hlast
  have hmem := List.getLast_mem h.spelling_ne_nil
  rw [show name.spelling.getLast h.spelling_ne_nil = RawPath.slash by simpa using hlast] at hmem
  exact h.not_slash hmem

end Name.IsPart

namespace Path.IsName

variable {name : String}

theorem parts (h : IsName name) : Path.parts name = [.name (.text name)] := h.isPart.parts

theorem not_isAbsolute (h : IsName name) : Path.isAbsolute name = false := h.isPart.not_isAbsolute

end Path.IsName

namespace Volume

variable {v : Volume} {here : Location} {cwd : WorkingDirectory} {base : RawPath} {name : Name}

/-- Parts behind a path are followed from where the path halts, or behind the link that it met. -/
def Halt.andThen (v : Volume) (more : List Path.Part) : Halt → Halt
  | .found place => v.descend place more
  | .missing _ => .refused .noEntry
  | .link place target rest => .link place target (rest ++ more)
  | .refused e => .refused e

theorem descend_append (v : Volume) (here : Location) (parts : List Path.Part)
    {more : List Path.Part} (hmore : more ≠ []) :
    v.descend here (parts ++ more) = (v.descend here parts).andThen v more := by
  induction parts generalizing here with
  | nil => rfl
  | cons part rest ih =>
      simp only [List.cons_append, descend]
      cases v.find? here with
      | none => rfl
      | some entry =>
          dsimp only
          split
          · rfl
          · split
            · rfl
            · cases part with
              | here => exact ih here
              | above => exact ih here.dropLast
              | name name =>
                  dsimp only
                  split
                  · rfl
                  · split
                    · have hlast : (rest ++ more).isEmpty = false := by simp [hmore]
                      simp only [hlast, Bool.false_eq_true, if_false]
                      split <;> rfl
                    · rfl
                    · exact ih _

/-- A walk by one name ends at an entry of a directory, or it finds none. -/
theorem descend_name_cases (v : Volume) (spot : Location) (name : Name) :
    (∃ e, v.descend spot [.name name] = .refused e) ∨
      v.descend spot [.name name] = .missing (spot ++ [name]) ∨
      ∃ directory found, v.find? spot = some directory ∧ directory.node.isDirectory = true ∧
        v.find? (spot ++ [name]) = some found := by
  simp only [descend]
  cases hspot : v.find? spot with
  | none => exact .inl ⟨_, rfl⟩
  | some directory =>
      dsimp only
      split
      case isTrue => exact .inl ⟨_, rfl⟩
      case isFalse hdirectory =>
        split
        case isTrue => exact .inl ⟨_, rfl⟩
        case isFalse =>
          split
          case isTrue => exact .inl ⟨_, rfl⟩
          case isFalse =>
            cases hfound : v.find? (spot ++ [name]) with
            | none => exact .inr (.inl rfl)
            | some found =>
                exact .inr (.inr ⟨directory, found, rfl, by simpa using hdirectory, rfl⟩)

/-- A walk that goes through a name to an entry goes through a directory in which the name stands,
and this directory is where the walk without the name leads. -/
theorem exists_directory_of_resolve {links : Nat} {parts : List Path.Part} {place : Location}
    {entry : Entry} {asked : Bool}
    (hresolve : v.resolve .follow links here (parts ++ [.name name]) false =
      .ok (.present place entry asked)) (slash : Bool) :
    ∃ spot directory found last,
      v.resolve .follow links here parts slash = .ok (.present spot directory last) ∧
        directory.node.isDirectory = true ∧ v.find? (spot ++ [name]) = some found := by
  -- Only a link costs one of the links that are allowed.
  induction links using Nat.strongRecOn generalizing here parts slash with
  | ind links ih =>
      have hmore : ([.name name] : List Path.Part) ≠ [] := by simp
      rw [resolve, descend_append v here parts hmore] at hresolve
      rw [resolve]
      cases hhalt : v.descend here parts with
      | refused e => simp [hhalt, Halt.andThen] at hresolve
      | missing spot => simp [hhalt, Halt.andThen] at hresolve
      | found spot =>
          simp only [hhalt, Halt.andThen] at hresolve
          rcases descend_name_cases v spot name with ⟨e, hname⟩ | hname | ⟨directory, found, h⟩
          · simp [hname] at hresolve
          · simp [hname] at hresolve
          · simp only [h.1]
            exact ⟨spot, directory, found, slash, rfl, h.2⟩
      | link spot target rest =>
          cases links with
          | zero => simp [hhalt, Halt.andThen, LastLink.stops] at hresolve
          | succ links =>
              have hlast : (rest ++ [Path.Part.name name]).isEmpty = false := by simp
              simp only [hhalt, Halt.andThen, LastLink.stops, Bool.and_false, Bool.false_eq_true,
                if_false, hlast, Bool.false_and, Bool.or_false] at hresolve ⊢
              rw [← List.append_assoc] at hresolve
              exact ih links (Nat.lt_succ_self links) hresolve _

/-- Nothing leads by a name into a directory that has been removed. -/
theorem exists_attached_of_climb {parts : List Path.Part} {origin : Origin}
    (hclimb : v.climb cwd (parts ++ [.name name]) = .ok origin) :
    ∃ place rest, origin = .attached place (rest ++ [.name name]) ∧
      v.climb cwd parts = .ok (.attached place rest) := by
  induction parts generalizing cwd with
  | nil =>
      simp only [List.nil_append, climb] at hclimb
      split at hclimb
      case isTrue hattached =>
        obtain rfl := Except.ok.inj hclimb
        exact ⟨cwd.place, [], rfl, by simp only [climb, hattached, if_true]⟩
      case isFalse => simp at hclimb
  | cons part rest ih =>
      simp only [List.cons_append, climb] at hclimb
      split at hclimb
      case isTrue hattached =>
        obtain rfl := Except.ok.inj hclimb
        exact ⟨cwd.place, part :: rest, rfl, by simp only [climb, hattached, if_true]⟩
      case isFalse hattached =>
        cases part with
        | here =>
            simp only [climb, hattached, Bool.false_eq_true, if_false]
            exact ih hclimb
        | above =>
            simp only [climb, hattached, Bool.false_eq_true, if_false]
            exact ih hclimb
        | name text => simp at hclimb

theorem resolve_ne_removed {last : LastLink} {links : Nat} {parts : List Path.Part} {slash : Bool}
    (directory : WorkingDirectory) :
    v.resolve last links here parts slash ≠ .ok (.removed directory) := by
  fun_induction Volume.resolve v last links here parts slash with
  | case8 here parts slash spot target rest hhalt hgo links ih => exact ih
  | case1 | case2 | case3 | case4 | case5 | case6 | case7 => simp

/-- What a path leads to is where its walk ends, if it has one. -/
theorem walk_iff {path : RawPath} {last : LastLink} {destination : Destination} :
    v.walk cwd path last = .ok destination ↔
      0 ∉ path ∧ path ≠ [] ∧ path.length < longestPath ∧
        ((∃ directory, v.origin cwd path = .ok (.removed directory) ∧
            destination = .removed directory) ∨
          ∃ here parts, v.origin cwd path = .ok (.attached here parts) ∧
            v.resolve last mostLinks here parts (RawPath.endsInSlash path) = .ok destination) := by
  constructor
  · intro hwalk
    simp only [walk] at hwalk
    split at hwalk
    case isTrue => simp at hwalk
    case isFalse hnul =>
      split at hwalk
      case isTrue => simp at hwalk
      case isFalse hempty =>
        split at hwalk
        case isTrue => simp at hwalk
        case isFalse hlong =>
          refine ⟨by simpa using hnul, hempty, Nat.lt_of_not_le hlong, ?_⟩
          split at hwalk
          case h_1 => simp at hwalk
          case h_2 directory horigin => exact .inl ⟨directory, horigin, (Except.ok.inj hwalk).symm⟩
          case h_3 here parts horigin =>
            split at hwalk
            case h_1 => simp at hwalk
            case h_2 found hresolve =>
              obtain rfl := Except.ok.inj hwalk
              exact .inr ⟨here, parts, horigin, hresolve⟩
  · rintro ⟨hnul, hempty, hlength, hends⟩
    have hshort : ¬path.length ≥ longestPath := Nat.not_le_of_lt hlength
    simp only [walk, List.contains_eq_mem, hnul, decide_false, Bool.false_eq_true, if_false,
      if_neg hempty, if_neg hshort]
    rcases hends with ⟨directory, horigin, rfl⟩ | ⟨here, parts, horigin, hresolve⟩
    · simp only [horigin]
    · simp only [horigin, hresolve]

theorem nul_not_mem_octets_iff {text : String} :
    0 ∉ octets text ↔ text.toList.contains '\x00' = false := by
  rw [octets, Utf8.isOctet_nul.mem_encode_iff, List.contains_eq_mem, decide_eq_false_iff_not]

/-- What a path that is text leads to is where the walk of its octets ends. -/
theorem locate_iff {path : String} {last : LastLink} {destination : Destination} :
    v.locate cwd path last = .ok destination ↔
      path.toList.contains '\x00' = false ∧ path ≠ "" ∧ (octets path).length < longestPath ∧
        ((∃ directory, v.origin cwd (octets path) = .ok (.removed directory) ∧
            destination = .removed directory) ∨
          ∃ here parts, v.origin cwd (octets path) = .ok (.attached here parts) ∧
            v.resolve last mostLinks here parts (Path.endsInSlash path) = .ok destination) := by
  rw [locate, walk_iff, nul_not_mem_octets_iff, Ne, octets_eq_nil_iff]
  rfl

/-- A path starts where it starts with a name joined to it. -/
theorem exists_attached_of_origin {origin : Origin} (h : name.IsPart) (hbase : base ≠ [])
    (horigin : v.origin cwd (RawPath.join base name.spelling) = .ok origin) :
    ∃ place rest, origin = .attached place (rest ++ [.name name]) ∧
      v.origin cwd base = .ok (.attached place rest) := by
  obtain ⟨-, -, hparts⟩ := h.join hbase
  simp only [Volume.origin, RawPath.isAbsolute_join_of_relative hbase h.not_isAbsolute, hparts]
    at horigin ⊢
  split at horigin
  case isTrue habsolute =>
    obtain rfl := Except.ok.inj horigin
    exact ⟨[], RawPath.parts base, rfl, by rw [if_pos habsolute]⟩
  case isFalse habsolute =>
    rw [if_neg habsolute]
    exact exists_attached_of_climb horigin

/-- A name joined to a path does not lead to a directory that has been removed. -/
theorem walk_join_ne_removed (h : name.IsPart) (hbase : base ≠ []) (gone : WorkingDirectory) :
    v.walk cwd (RawPath.join base name.spelling) .follow ≠ .ok (.removed gone) := by
  intro hwalk
  obtain ⟨-, -, -, ⟨directory, horigin, -⟩ | ⟨here, parts, -, hresolve⟩⟩ := walk_iff.mp hwalk
  · obtain ⟨_, _, hsame, -⟩ := exists_attached_of_origin h hbase horigin
    cases hsame
  · exact resolve_ne_removed gone hresolve

/-- What a name joined to a path leads to stands in the directory to which the path leads. -/
theorem exists_directory_of_walk {place : Location} {entry : Entry} {asked : Bool}
    (h : name.IsPart) (hbase : base ≠ [])
    (hwalk : v.walk cwd (RawPath.join base name.spelling) .follow =
      .ok (.present place entry asked)) :
    ∃ spot directory found slash, v.walk cwd base .follow = .ok (.present spot directory slash) ∧
      directory.node.isDirectory = true ∧ v.find? (spot ++ [name]) = some found := by
  obtain ⟨gap, hjoin, -⟩ := h.join hbase
  obtain ⟨hnul, -, hlength, ⟨gone, -, hgone⟩ | ⟨here, parts, horigin, hresolve⟩⟩ :=
    walk_iff.mp hwalk
  · cases hgone
  · obtain ⟨_, rest, hsame, hfrom⟩ := exists_attached_of_origin h hbase horigin
    obtain ⟨rfl, rfl⟩ := Origin.attached.inj hsame
    rw [h.endsInSlash_join hbase] at hresolve
    obtain ⟨spot, directory, found, slash, hbefore, hdirectory, hfound⟩ :=
      exists_directory_of_resolve hresolve (RawPath.endsInSlash base)
    rw [hjoin] at hnul hlength
    have hnulBase : 0 ∉ base := fun hmem => hnul (by simp [hmem])
    have hlengthBase : base.length < longestPath := by
      simp only [List.length_append] at hlength
      omega
    exact ⟨spot, directory, found, slash,
      walk_iff.mpr ⟨hnulBase, hbase, hlengthBase, .inr ⟨_, _, hfrom, hbefore⟩⟩, hdirectory, hfound⟩

/-- What a name joined to a path that is text leads to stands in the directory to which the path
leads. -/
theorem exists_directory_of_lookUp {path text : String} {place : Option Location} {entry : Entry}
    (h : Path.IsName text) (hpath : path ≠ "")
    (hlook : v.lookUp cwd (Path.join path text) .follow = .ok (place, entry)) :
    ∃ spot directory found, v.lookUp cwd path .follow = .ok (some spot, directory) ∧
      directory.node.isDirectory = true ∧ v.find? (spot ++ [.text text]) = some found := by
  have hbase : octets path ≠ [] := mt octets_eq_nil_iff.mp hpath
  cases hlocate : v.locate cwd (Path.join path text) .follow with
  | error fault => simp [lookUp, hlocate] at hlook
  | ok destination =>
      have hjoined : v.walk cwd (RawPath.join (octets path) (Name.text text).spelling) .follow =
          .ok destination := by
        rwa [locate, Path.octets_join] at hlocate
      cases destination with
      | removed gone => exact absurd hjoined (walk_join_ne_removed h.isPart hbase gone)
      | vacant spot slash => simp [lookUp, hlocate] at hlook
      | present spot found slash =>
          obtain ⟨spot, directory, found, slash, hwalk, hdirectory, hfound⟩ :=
            exists_directory_of_walk h.isPart hbase hjoined
          have hbefore : v.locate cwd path .follow = .ok (.present spot directory slash) := hwalk
          exact ⟨spot, directory, found, by simp [lookUp, hbefore, hdirectory], hdirectory, hfound⟩

theorem mem_of_lookup {rows : List (Location × Entry)} {place : Location} {entry : Entry}
    (h : rows.lookup place = some entry) : (place, entry) ∈ rows := by
  induction rows with
  | nil => simp at h
  | cons row rest ih =>
      obtain ⟨spot, found⟩ := row
      by_cases hspot : place = spot
      · subst hspot
        rw [List.lookup_cons, beq_self_eq_true] at h
        obtain rfl := Option.some.inj h
        exact List.mem_cons_self
      · rw [lookup_cons_of_ne hspot] at h
        exact List.mem_cons_of_mem _ (ih h)

/-- The entries whose location is one name longer are listed. -/
theorem mem_children_iff {place : Location} {name : Name} {entry : Entry} :
    (name, entry) ∈ v.children place ↔ (place ++ [name], entry) ∈ v.rows := by
  unfold children
  rw [List.mem_filterMap]
  constructor
  · rintro ⟨⟨spot, found⟩, hrow, heq⟩
    dsimp only at heq
    split at heq
    case h_2 => simp at heq
    case h_1 last hlast =>
      split at heq
      case isFalse => simp at heq
      case isTrue hplace =>
        obtain ⟨rfl, rfl⟩ := Prod.mk.inj (Option.some.inj heq)
        obtain ⟨stem, rfl⟩ := List.getLast?_eq_some_iff.mp hlast
        rw [← hplace, List.dropLast_concat]
        exact hrow
  · intro hrow
    exact ⟨_, hrow, by simp⟩

/-- Volumes in which the names of all entries can stand in a path, as far as they are texts. -/
def WellNamed (v : Volume) : Prop := ∀ row ∈ v.rows, ∀ name ∈ row.1, name.IsProper

instance (v : Volume) : Decidable v.WellNamed :=
  inferInstanceAs (Decidable (∀ row ∈ v.rows, ∀ name ∈ row.1, name.IsProper))

end Volume

end LineShell
