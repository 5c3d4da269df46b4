import LineShell.Toolbox.Basic

/-!
# Counting

`wc` counts lines, words and octets. A word is a run without blanks that holds a visible character;
what is not visible neither begins nor ends a word. The columns are as wide as the sizes of the
files ask for.
-/

namespace LineShell.Toolbox.Wc

/-- What was counted in an input. -/
structure Counts where
  lines : Nat
  words : Nat
  octets : Nat

/-- Nothing. -/
def Counts.zero : Counts := ⟨0, 0, 0⟩

/-- The counts of two inputs together. -/
def Counts.add (a b : Counts) : Counts :=
  ⟨a.lines + b.lines, a.words + b.words, a.octets + b.octets⟩

/-- Blanks between words. -/
def isBlank (octet : UInt8) : Bool := octet == 0x20 || (0x09 ≤ octet && octet ≤ 0x0D)

/-- The words of an input; a word may have begun. -/
def countWords (inWord : Bool) : Bytes → Nat
  | [] => if inWord then 1 else 0
  | octet :: rest =>
    if isBlank octet then (if inWord then 1 else 0) + countWords false rest
    else countWords (inWord || isPrintable octet) rest

/-- What there is to count in an input. -/
def countsOf (input : Bytes) : Counts :=
  ⟨input.count lineFeed, countWords false input, input.length⟩

/-- The columns that options ask for. -/
structure Columns where
  lines : Bool
  words : Bool
  octets : Bool

/-- The columns of a row. -/
def Columns.of (columns : Columns) (counts : Counts) : List Nat :=
  (if columns.lines then [counts.lines] else []) ++
  (if columns.words then [counts.words] else []) ++
  (if columns.octets then [counts.octets] else [])

/-- A number at the right end of a field. -/
def rightAligned (width n : Nat) : String :=
  String.ofList (List.replicate (width - n.repr.length) ' ') ++ n.repr

/-- A row of the listing. -/
def row (columns : Columns) (width : Nat) (counts : Counts) (name : Option String) : String :=
  joined " " ((columns.of counts).map (rightAligned width)) ++
    (match name with
      | some name => " " ++ (if name.toList.contains '\n' then quoteName name else name)
      | none => "") ++ "\n"

/-- The size of an input: nothing is counted for what is missing, and what is no file has none. -/
def sizeOf (call : Call) (m : Machine) (path : String) : Option (Option Nat) :=
  if path = "-" then
    match m.channel? call.streams.input with
    | some (.tape contents _) => some (if m.terminal.isSome then none else some contents.length)
    | some (.file place serial _ _) =>
      match m.contentsOf place serial with
      | some ⟨_, .file contents _⟩ => some (some contents.length)
      | _ => some none
    | none | some .closed => none
    | _ => some none
  else
    match m.volume.lookUp call.directory path .follow with
    | .ok (_, ⟨_, .file contents _⟩) => some (some contents.length)
    | .ok _ => some none
    | .error _ => none

/-- The width of the columns. -/
def widthOf (sizes : List (Option (Option Nat))) : Nat :=
  let width := ((sizes.filterMap Option.join).foldl (· + ·) 0).repr.length
  if sizes.any fun size => size == some none then max 7 width else width

/-- The columns that options ask for; without any there are all three. -/
def columnsOf (reading : SwitchReading) : Columns :=
  if reading.given.isEmpty then ⟨true, true, true⟩
  else ⟨reading.has 'l', reading.has 'w', reading.has 'c' || reading.has 'm'⟩

/-- Counts one file and shows its row at once. -/
def countFile (call : Call) (columns : Columns) (width : Nat) (named : Bool)
    (state : Counts × Bool × Option FileFault) (path : String) :
    Action (Counts × Bool × Option FileFault) := do
  let (total, faulty, refused) := state
  let shown := if named then some path else none
  let show' (counts : Counts) (faulty : Bool) : Action (Counts × Bool × Option FileFault) := do
    match ← emit call (octets (row columns width counts shown)) with
    | none => return (total.add counts, faulty, refused)
    | some fault => return (total.add counts, faulty, some fault)
  match ← namedInput call path with
  | .ok input => show' (countsOf input.octets) faulty
  | .error fault =>
    report call (quoteName (if named then path else "standard input") ++ ": " ++ reason fault)
    if showsOnReading fault then show' .zero true else return (total, true, refused)

end Wc

open Wc in
/-- Counts lines, words and octets. -/
def wc : Program := program fun call =>
  withSwitches call (.ofLetters "clmw") 1 fun reading => do
    let columns := columnsOf reading
    let paths := if reading.operands.isEmpty then ["-"] else reading.operands
    let single := paths.length = 1 && (columns.of .zero).length = 1
    let m ← get
    let width := if single then 1 else widthOf (paths.map (sizeOf call m))
    let (total, faulty, refused) ←
      paths.foldlM (countFile call columns width (!reading.operands.isEmpty)) (.zero, false, none)
    let refused ←
      if 1 < paths.length then do
        let last ← emit call (octets (row columns width total (some "total")))
        pure (refused.or last)
      else pure refused
    let notOpen := paths.contains "-" && isClosed m call.streams.input
    if notOpen then report call ("-: " ++ reason (.refused .badDescriptor))
    if let some fault := refused then
      report call ("write error" ++
        if fault == .refused .badDescriptor then ": " ++ reason fault else "")
    return .exited (if refused.isSome || faulty then 1 else 0)

end LineShell.Toolbox
