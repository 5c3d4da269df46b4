import LineShell.Toolbox.Basic

/-!
# Turning octets into others

`tr` works on sets of octets. A set is written as characters, ranges and classes; in that order its
octets are paired with those of a second set, and what stands in the first one is turned into its
partner. Octets can also be deleted, and runs of an octet can be squeezed into one.
-/

namespace LineShell.Toolbox.Tr

/-- All octets in order. -/
def allOctets : Bytes := (List.range 256).map UInt8.ofNat

/-- The octets of a class. -/
def class? (name : String) : Option Bytes :=
  let those (p : Char → Bool) : Option Bytes :=
    some (allOctets.filter fun o => o < 0x80 && p (charOf o))
  match name with
  | "alnum" => those Char.isAlphanum
  | "alpha" => those Char.isAlpha
  | "blank" => those fun c => c == ' ' || c == '\t'
  | "digit" => those Char.isDigit
  | "lower" => those Char.isLower
  | "punct" => those fun c => 0x21 ≤ c.toNat && c.toNat ≤ 0x7E && !c.isAlphanum
  | "space" => those fun c => c == ' ' || (9 ≤ c.toNat && c.toNat ≤ 13)
  | "upper" => those Char.isUpper
  | _ => none

/-- An octet of a set as it was written, and whether a backslash took its meaning away. -/
structure Written where
  octet : UInt8
  quoted : Bool
  deriving DecidableEq

/-- Whether an octet stands for itself as this character, unquoted. -/
def Written.is (w : Written) (c : Char) : Bool := !w.quoted && charOf w.octet == c

/-- The octet that stands behind a backslash, and how many characters it takes: a letter for a
control character, octal digits, or the octet itself. -/
def meant (behind : Bytes) : UInt8 × Nat :=
  let digits := (behind.take 3).takeWhile fun o => 0x30 ≤ o && o ≤ 0x37
  match behind.map charOf with
  | 'n' :: _ => (10, 1)
  | 'r' :: _ => (13, 1)
  | 't' :: _ => (9, 1)
  | _ =>
    if digits.isEmpty then (behind.headD 0x5C, 1)
    else ((digits.foldl (fun (n : Nat) o => n * 8 + (o.toNat - 48)) 0).toUInt8, digits.length)

/-- Takes the backslashes of a set away; a step for every octet is enough. -/
def unquote : Nat → Bytes → List Written
  | 0, _ | _, [] => []
  | n + 1, octet :: rest =>
    if octet == 0x5C && !rest.isEmpty then
      let (octet, length) := meant rest
      ⟨octet, true⟩ :: unquote n (rest.drop length)
    else ⟨octet, false⟩ :: unquote n rest

/-- A class at the start of a set, and the rest behind it. -/
def classAt? : List Written → Option (Bytes × List Written)
  | a :: b :: rest =>
    let name := rest.takeWhile (!·.is ':')
    match rest.drop name.length with
    | c :: d :: rest =>
      if a.is '[' && b.is ':' && c.is ':' && d.is ']' then
        (class? (String.ofList (name.map (charOf ·.octet)))).map fun octets => (octets, rest)
      else none
    | _ => none
  | _ => none

/-- An octet for a report. -/
def printable (o : UInt8) : String :=
  String.ofList (if isPrintable o then [charOf o] else escaped o)

/-- Reads the octets of a set; a step for every octet is enough. -/
def readSet : Nat → List Written → Except String Bytes
  | 0, _ | _, [] => .ok []
  | n + 1, a :: rest => do
    match classAt? (a :: rest), rest with
    | some (octets, rest), _ => return octets ++ (← readSet n rest)
    | none, dash :: b :: after =>
      if !dash.is '-' then return a.octet :: (← readSet n rest)
      else if b.octet < a.octet then
        throw ("range-endpoints of '" ++ printable a.octet ++ "-" ++ printable b.octet ++
          "' are in reverse collating sequence order")
      else return (allOctets.filter fun o => a.octet ≤ o && o ≤ b.octet) ++ (← readSet n after)
    | none, _ => return a.octet :: (← readSet n rest)

/-- The octets of a set. -/
def setOf (text : String) : Except String Bytes :=
  let written := unquote text.utf8ByteSize (octets text)
  readSet written.length written

/-- Writes one octet for a run of equal octets of a set. -/
def squeeze (set : Bytes) (last : Option UInt8) : Bytes → Bytes
  | [] => []
  | o :: rest =>
    if last = some o && set.contains o then squeeze set last rest
    else o :: squeeze set (some o) rest

/-- What is done with octets, one after the other. -/
structure Plan where
  deleted : Bytes
  /-- Octets with what they are turned into; later pairs count. -/
  table : List (UInt8 × UInt8)
  squeezed : Bytes

/-- The octets outside of a set. -/
def outside (set : Bytes) : Bytes := allOctets.filter (!set.contains ·)

/-- The plan that sets and options ask for. The second of two sets is made as long as the first by
repeating its last octet. -/
def planOf (delete squeezes : Bool) (first : Bytes) (second : Option Bytes) :
    Except String Plan :=
  match second with
  | none => .ok (if delete then ⟨first, [], []⟩ else ⟨[], [], first⟩)
  | some second =>
    if delete then .ok ⟨first, [], second⟩
    else match second.getLast? with
      | none => .error "when not truncating set1, string2 must be non-empty"
      | some last =>
        let targets := second ++ List.replicate (first.length - second.length) last
        .ok ⟨[], (first.zip targets).reverse, if squeezes then second else []⟩

/-- Does to octets what a plan says. -/
def Plan.apply (plan : Plan) (input : Bytes) : Bytes :=
  let kept := if plan.deleted.isEmpty then input else input.filter (!plan.deleted.contains ·)
  let table := (allOctets.map fun o => (plan.table.lookup o).getD o).toArray
  let turned := if plan.table.isEmpty then kept else kept.map fun o => table.getD o.toNat o
  if plan.squeezed.isEmpty then turned else squeeze plan.squeezed none turned

/-- Reads the input and writes what a plan makes of it. -/
def turn (call : Call) (plan : Plan) : Action Ending := do
  match ← takeInput call with
  | .error fault =>
    report call ("read error: " ++ reason fault)
    return .exited 1
  | .ok input =>
    let ending ← finish call 0 (plan.apply input.octets)
    if input.cycle.isEmpty then return ending
    else
      modify fun m => m.writeForEver call.streams.output (plan.apply input.cycle)
      endForEver call "write error" 1

end Tr

open Tr in
/-- Turns octets of one set into those of another, deletes octets or squeezes runs of them. -/
def tr : Program := program fun call =>
  withSwitches call { Switches.ofLetters "cds" with leading := true } 1 fun reading => do
    let (delete, squeezes) := (reading.has 'd', reading.has 's')
    let fewest := if delete == squeezes then 2 else 1
    let most := if delete && !squeezes then 1 else 2
    match reading.operands, reading.operands.drop most with
    | [], _ => refuse call 1 "missing operand"
    | operands, extra :: _ =>
      report call ("extra operand " ++ quoteText extra)
      if operands.length = 2 then
        complain call "Only one string may be given when deleting without squeezing repeats.\n"
      hint call 1
    | first :: others, [] =>
      if others.length + 1 < fewest then
        report call ("missing operand after " ++ quoteText first)
        complain call (if squeezes
          then "Two strings must be given when both deleting and squeezing repeats.\n"
          else "Two strings must be given when translating.\n")
        hint call 1
      else
        let plan : Except String Plan := do
          let first ← setOf first
          planOf delete squeezes (if reading.has 'c' then outside first else first)
            (← others.head?.mapM setOf)
        match plan with
        | .ok plan => turn call plan
        | .error fault =>
          report call fault
          return .exited 1

end LineShell.Toolbox
