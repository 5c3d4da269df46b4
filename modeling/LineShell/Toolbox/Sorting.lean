import LineShell.Toolbox.Basic

/-!
# Sorting lines

`sort` reads all its input, puts the lines in order and writes them. Lines are compared octet by
octet, or first by the numbers at their start. Of lines that compare equal only the first one may be
kept.
-/

namespace LineShell.Toolbox.Sorting

/-- How lines are put in order. -/
structure Order where
  /-- The numbers at the start of lines count first. -/
  byNumber : Bool
  reversed : Bool
  /-- Of lines that compare equal one is kept. -/
  unique : Bool

/-- Octets in order; the beginning of a text comes before the text. -/
def compareOctets : Bytes → Bytes → Ordering
  | [], [] => .eq
  | [], _ :: _ => .lt
  | _ :: _, [] => .gt
  | a :: as, b :: bs => if a < b then .lt else if b < a then .gt else compareOctets as bs

/-- Digits at the start of a text. -/
def digitsOf (text : Bytes) : List Char :=
  (text.map charOf).takeWhile Char.isDigit

/-- The number at the start of a text: its digits, and how many of them stand behind the point. -/
def numberOf (text : Bytes) : Int × Nat :=
  let text := text.dropWhile fun octet => octet == 0x20 || octet == 0x09
  let isNegative := text.head? == some 0x2D
  let text := if isNegative then text.tail else text
  let whole := digitsOf text
  let places := match text.drop whole.length with
    | 0x2E :: behind => digitsOf behind
    | _ => []
  let value : Int := Int.ofNat ((decimal? (whole ++ places)).getD 0)
  (if isNegative then -value else value, places.length)

/-- Compares two decimal numbers. -/
def compareNumbers (a b : Int × Nat) : Ordering :=
  compare (a.1 * Int.pow 10 b.2) (b.1 * Int.pow 10 a.2)

/-- Compares two lines. -/
def Order.compare (order : Order) (a b : Bytes) : Ordering :=
  let byNumber := if order.byNumber then compareNumbers (numberOf a) (numberOf b) else .eq
  let result := if order.byNumber && order.unique then byNumber
    else byNumber.then (compareOctets a b)
  if order.reversed then result.swap else result

/-- Of lines in a row that compare equal only the first stays. -/
def firstOfEqual (order : Order) : List Bytes → List Bytes
  | a :: b :: rest =>
    if order.compare a b = .eq then firstOfEqual order (a :: rest)
    else a :: firstOfEqual order (b :: rest)
  | short => short
termination_by lines => lines.length

/-- Lines as they are shown. -/
def Order.sorted (order : Order) (lines : List Bytes) : Bytes :=
  let lines := lines.mergeSort fun a b => order.compare a b != .gt
  ((if order.unique then firstOfEqual order lines else lines).map closed).flatten

/-- The first file that cannot even be opened. -/
def unreadable? (call : Call) (m : Machine) (paths : List String) : Option (String × FileFault) :=
  (paths.filter (· != "-")).findSome? fun path =>
    match m.volume.readFile call.directory path with
    | .error fault => if showsOnReading fault then none else some (path, fault)
    | .ok _ => none

/-- Reads the files in turn, up to the first that cannot be read. -/
def readAll (call : Call) : List String → Action (Option (List Bytes))
  | [] => return some []
  | path :: rest => do
    let isMissing := path = "-" && isClosed (← get) call.streams.input
    match ← namedInput call path with
    | .error fault =>
      report call ((if isMissing then "stat failed: " else "read failed: ") ++ quoteName path ++
        ": " ++ reason fault)
      return none
    | .ok input => return (← readAll call rest).map ((linesOf input.octets).map body ++ ·)

/-- Writes the result. Nothing is known against closing an output stream whose place was taken by a
file. -/
def deliver (call : Call) (files : Nat) (result : Bytes) : Action Ending := do
  match ← emit call result with
  | none => return .exited 0
  | some fault =>
    let taken := (if isClosed (← get) call.streams.input then 1 else 0) < files
    report call ((if heldBack < result.length then "write failed: " else "fflush failed: ") ++
      "'standard output': " ++ reason fault)
    report call ("write error" ++
      if fault == .refused .badDescriptor && !taken then ": " ++ reason fault else "")
    return .exited 2

end Sorting

open Sorting in
/-- Sorts lines. -/
def sort : Program := program fun call =>
  withSwitches call (.ofLetters "nru") 2 fun reading => do
    let paths := if reading.operands.isEmpty then ["-"] else reading.operands
    if let some (path, fault) := unreadable? call (← get) paths then
      report call ("cannot read: " ++ quoteName path ++ ": " ++ reason fault)
      return .exited 2
    match ← readAll call paths with
    | none => return .exited 2
    | some lines =>
      let order : Order := ⟨reading.has 'n', reading.has 'r', reading.has 'u'⟩
      deliver call (paths.countP (· != "-")) (order.sorted lines)

end LineShell.Toolbox
