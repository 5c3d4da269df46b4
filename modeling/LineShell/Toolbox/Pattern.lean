import LineShell.Toolbox.Quoting

/-!
# Patterns

A pattern describes runs of octets, as basic regular expressions do: an atom matches one octet out
of a set, or any number of them in a row, and the whole may be tied to the start or the end of a
line. `Pattern.find?` looks for the first place where a pattern matches, and takes the longest match
there.
-/

namespace LineShell.Toolbox

/-- A part of a pattern. -/
structure Atom where
  /-- Octets named by the set, or all others. -/
  members : Bytes
  negated : Bool
  /-- Any number of octets matches instead of one. -/
  repeated : Bool
  deriving DecidableEq, Repr

/-- Whether an octet is one that an atom matches. -/
def Atom.matches (atom : Atom) (octet : UInt8) : Bool :=
  atom.members.contains octet != atom.negated

/-- A pattern. -/
structure Pattern where
  atoms : List Atom
  atStart : Bool
  atEnd : Bool
  deriving DecidableEq, Repr

namespace Pattern

/-- The octet that a character stands for. -/
def octetOf (c : Char) : UInt8 := c.toNat.toUInt8

/-- Reads the members of a set up to the closing bracket, which is a member itself if it comes
first. -/
def readMembers (first : Bool) : List Char → Option (Bytes × List Char)
  | [] => none
  | c :: '-' :: d :: rest =>
    if c == ']' && !first then some ([], '-' :: d :: rest)
    else if d == ']' then some ([octetOf c, 0x2D], rest)
    else (readMembers false rest).map fun (members, rest) =>
      ((List.range (d.toNat + 1 - c.toNat)).map (fun i => (c.toNat + i).toUInt8) ++ members, rest)
  | c :: rest =>
    if c == ']' && !first then some ([], rest)
    else (readMembers false rest).map fun (members, rest) => (octetOf c :: members, rest)

/-- Reads an atom without its star. -/
def readAtom : List Char → Option (Atom × List Char)
  | [] | ['\\'] => none
  | '\\' :: c :: rest => some (⟨[octetOf c], false, false⟩, rest)
  | '.' :: rest => some (⟨[], true, false⟩, rest)
  | '[' :: '^' :: rest => (readMembers true rest).map fun (members, rest) =>
    (⟨members, true, false⟩, rest)
  | '[' :: rest => (readMembers true rest).map fun (members, rest) =>
    (⟨members, false, false⟩, rest)
  | c :: rest => some (⟨[octetOf c], false, false⟩, rest)

/-- Reads atoms, and whether the line has to end behind them; a step for every character is
enough. -/
def readAtoms : Nat → List Char → Option (List Atom × Bool)
  | 0, _ | _, [] => some ([], false)
  | _, ['$'] => some ([], true)
  | n + 1, text => do
    let (atom, rest) ← readAtom text
    let repeated := rest.head? == some '*'
    let (atoms, atEnd) ← readAtoms n (if repeated then rest.tail else rest)
    return ({ atom with repeated := repeated } :: atoms, atEnd)

/-- The pattern that a text spells. -/
def ofText? (text : List Char) : Option Pattern :=
  let atStart := text.head? == some '^'
  let text := if atStart then text.tail else text
  (readAtoms text.length text).map fun (atoms, atEnd) => ⟨atoms, atStart, atEnd⟩

/-- How many octets at the start of a text atoms can match. -/
def lengths : List Atom → Bytes → List Nat
  | [], _ => [0]
  | atom :: rest, text =>
    let run := (text.takeWhile atom.matches).length
    let choices := if atom.repeated then List.range (run + 1) else if run = 0 then [] else [1]
    choices.flatMap fun n => (lengths rest (text.drop n)).map (n + ·)

/-- How many octets at the start of a text a pattern matches at most. -/
def longest? (pattern : Pattern) (text : Bytes) : Option Nat :=
  let found := lengths pattern.atoms text
  (if pattern.atEnd then found.filter (· == text.length) else found).max?

/-- The first place where a pattern matches, and how many octets it matches there. The text may be
what is behind a part of a line. -/
def find? (pattern : Pattern) (isStart : Bool) : Bytes → Option (Nat × Nat)
  | [] => if pattern.atStart && !isStart then none else (pattern.longest? []).map (0, ·)
  | octet :: rest =>
    let here := if pattern.atStart && !isStart then none else pattern.longest? (octet :: rest)
    match here with
    | some length => some (0, length)
    | none => (find? pattern false rest).map fun (place, length) => (place + 1, length)

end Pattern

end LineShell.Toolbox
