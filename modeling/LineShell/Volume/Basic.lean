import LineShell.Text.Path

/-!
# A volume of directories and files

A volume is a table from locations to entries. A location is the list of names from the root, so
the entries of a directory are those whose location is one name longer. Every entry has a serial
number that no other entry of the volume ever had: whoever holds a location and a serial number
can tell that what stood there is gone, even when something new stands in its place.

## Implementation notes

The table is a list and the first row for a location counts. `find?_put` and its neighbours are the
view that later proofs use; they never look at the list.
-/

namespace LineShell

/-- Names from the root to an entry. -/
abbrev Location := List Name

/-- Files without contents. -/
inductive Device where
  /-- Swallows what is written and has nothing to read. -/
  | null
  /-- Refuses what is written for lack of space; zeros can be read from it without end. -/
  | full
  /-- Swallows what is written; zeros can be read from it without end. -/
  | zero
  /-- A named pipe that others have opened to read it by the time it is open for writing, and have
  left when something is written. -/
  | abandoned
  deriving DecidableEq, Repr

/-- What can be read from a device over and over. -/
def Device.cycle : Device → List UInt8
  | .null | .abandoned => []
  | .full | .zero => [0]

/-- What the owner of a file or directory may do with it, who is also the one that asks. To read a
directory is to list it, to write to it is to add entries and take them away, and to run it is to
pass through it or to be in it. -/
structure Permissions where
  mayRead : Bool
  mayWrite : Bool
  mayRun : Bool
  /-- Somebody may run it, if not the owner. -/
  runnable : Bool
  deriving DecidableEq, Repr

/-- The permissions of a file that is newly created. -/
def Permissions.ofNewFile : Permissions := ⟨true, true, false, false⟩

/-- The permissions of a directory that is newly made. -/
def Permissions.ofNewDirectory : Permissions := ⟨true, true, true, true⟩

/-- What an entry is. -/
inductive Node where
  | file (contents : Bytes) (permissions : Permissions)
  /-- A program of the machine itself, which no writing of octets can bring about. -/
  | program (name : String)
  | directory (permissions : Permissions)
  | link (target : String)
  | device (device : Device)
  deriving DecidableEq, Repr

namespace Node

/-- A directory that is newly made. -/
def newDirectory : Node := .directory .ofNewDirectory

/-- Directories. -/
def isDirectory : Node → Bool
  | .directory _ => true
  | _ => false

/-- Directories that one may pass through, or be in. -/
def mayEnter : Node → Bool
  | .directory permissions => permissions.mayRun
  | _ => false

/-- Directories whose entries may be listed. -/
def mayList : Node → Bool
  | .directory permissions => permissions.mayRead
  | _ => false

/-- Directories to which entries may be added, and from which they may be taken away. -/
def mayChange : Node → Bool
  | .directory permissions => permissions.mayWrite
  | _ => false

end Node

/-- An entry of a volume. -/
structure Entry where
  serial : Nat
  node : Node
  deriving DecidableEq, Repr

/-- A table of entries, and a serial number that is still free. -/
structure Volume where
  rows : List (Location × Entry)
  free : Nat
  deriving DecidableEq, Repr

namespace Volume

/-- Only the root. -/
def empty : Volume := ⟨[([], ⟨0, .newDirectory⟩)], 1⟩

/-- The entry at a location. -/
def find? (v : Volume) (place : Location) : Option Entry := v.rows.lookup place

/-- Locations of directories. -/
def isDirectory (v : Volume) (place : Location) : Bool :=
  (v.find? place).any (·.node.isDirectory)

/-- Locations of directories that one may pass through, or be in. -/
def mayEnter (v : Volume) (place : Location) : Bool :=
  (v.find? place).any (·.node.mayEnter)

/-- Locations whose last name may be given to an entry there, or taken from it. -/
def mayChangeAt (v : Volume) (place : Location) : Bool :=
  (v.find? place.dropLast).any (·.node.mayChange)

/-- Puts an entry at a location, in place of what is there. -/
def put (v : Volume) (place : Location) (entry : Entry) : Volume :=
  { v with rows := (place, entry) :: v.rows.filter (·.1 != place) }

/-- Puts something new at a location, under a serial number of its own. -/
def create (v : Volume) (place : Location) (node : Node) : Volume :=
  { v.put place ⟨v.free, node⟩ with free := v.free + 1 }

/-- Changes what the entry at a location is, if there is one. -/
def update (v : Volume) (place : Location) (node : Node) : Volume :=
  match v.find? place with
  | some entry => v.put place { entry with node := node }
  | none => v

/-- Takes the entry at a location away. -/
def remove (v : Volume) (place : Location) : Volume :=
  { v with rows := v.rows.filter (·.1 != place) }

/-- The entries of a directory with their names. -/
def children (v : Volume) (place : Location) : List (Name × Entry) :=
  v.rows.filterMap fun row =>
    match row.1.getLast? with
    | some name => if row.1.dropLast = place then some (name, row.2) else none
    | none => none

/-- The entries in and below a directory. -/
def below (v : Volume) (place : Location) : List (Location × Entry) :=
  v.rows.filter fun row => place.isPrefixOf row.1

theorem lookup_cons_of_ne {rows : List (Location × Entry)} {spot other : Location} {entry : Entry}
    (h : other ≠ spot) : ((spot, entry) :: rows).lookup other = rows.lookup other := by
  have hb : (other == spot) = false := by simpa using h
  simp [List.lookup_cons, hb]

theorem lookup_filter_ne (rows : List (Location × Entry)) (place other : Location) :
    (rows.filter (·.1 != place)).lookup other =
      if other = place then none else rows.lookup other := by
  induction rows with
  | nil => simp
  | cons row rest ih =>
    obtain ⟨spot, entry⟩ := row
    by_cases hs : spot = place
    · subst hs
      by_cases ho : other = spot
      · subst ho
        simpa using ih
      · simp [lookup_cons_of_ne ho, ih, ho]
    · have hkeep : ((spot, entry) :: rest).filter (·.1 != place) =
          (spot, entry) :: rest.filter (·.1 != place) := by simp [hs]
      rw [hkeep]
      by_cases ho : other = spot
      · subst ho
        simp [hs]
      · rw [lookup_cons_of_ne ho, lookup_cons_of_ne ho, ih]

@[simp] theorem find?_put (v : Volume) (place other : Location) (entry : Entry) :
    (v.put place entry).find? other = if other = place then some entry else v.find? other := by
  by_cases h : other = place
  · subst h
    simp [find?, put]
  · simp [find?, put, lookup_cons_of_ne h, h, lookup_filter_ne]

@[simp] theorem find?_remove (v : Volume) (place other : Location) :
    (v.remove place).find? other = if other = place then none else v.find? other := by
  simp [find?, remove, lookup_filter_ne]

@[simp] theorem find?_create (v : Volume) (place other : Location) (node : Node) :
    (v.create place node).find? other =
      if other = place then some ⟨v.free, node⟩ else v.find? other := by
  show (v.put place ⟨v.free, node⟩).find? other = _
  simp

end Volume

end LineShell
