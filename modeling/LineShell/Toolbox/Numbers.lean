import LineShell.Toolbox.Basic

/-!
# Endless words and runs of numbers

`yes` writes its operands as a line, over and over. `seq` writes whole numbers from a first to a
last one, in steps.
-/

namespace LineShell.Toolbox

namespace Numbers

/-- The number that a text spells. -/
def integer? (text : String) : Option Int :=
  match text.toList with
  | '-' :: digits => (decimal? digits).map fun n => -Int.ofNat n
  | digits => (decimal? digits).map Int.ofNat

/-- How many numbers a run has; the step is not zero. -/
def size (first step last : Int) : Nat := (Int.fdiv (last - first) step + 1).toNat

/-- So many numbers of a run, a line each. -/
def written (first step : Int) (count : Nat) : Bytes :=
  (List.range count).flatMap fun i => octets (toString (first + step * Int.ofNat i) ++ "\n")

/-- Numbers that are written at once; if a pipe is to take more than that, there has to be patience
for them. -/
def longRun : Nat := 100000

/-- Writes a run of numbers. On a pipe no more are written than there is patience for. -/
def writeRun (call : Call) (first step last : Int) : Action Ending := do
  let m ← get
  let count := size first step last
  let most :=
    if (m.stream? call.streams.output).any (·.isPipe) then min count (max longRun m.patience)
    else count
  let ending ← finish call 0 (written first step most)
  if most < count then endByPipe call "write error" 1 else return ending

/-- The run that numbers ask for: its first number, its step and its last number. -/
def runOf : List Int → Int × Int × Int
  | [last] => (1, 1, last)
  | [first, last] => (first, 1, last)
  | [first, step, last] => (first, step, last)
  | _ => (1, 1, 0)

end Numbers

open Numbers in
/-- Writes a run of numbers. What looks like a negative number is no option. -/
def seq : Program := program fun call => do
  let texts := operands call
  match texts.find? fun text => (integer? text).isNone with
  | some text => refuse call 1 ("invalid floating point argument: " ++ quoteText text)
  | none =>
    match texts, runOf (texts.filterMap integer?) with
    | [], _ => refuse call 1 "missing operand"
    | _ :: _ :: _ :: extra :: _, _ => refuse call 1 ("extra operand " ++ quoteText extra)
    | _, (_, 0, _) =>
      refuse call 1 ("invalid Zero increment value: " ++ quoteText (texts[1]?.getD ""))
    | _, (first, step, last) => writeRun call first step last

/-- Writes a line over and over. -/
def yes : Program := program fun call =>
  withSwitches call { letters := [], leading := true } 1 fun reading => do
    let words := if reading.operands.isEmpty then "y" else joined " " reading.operands
    let line := octets (words ++ "\n")
    match ← emit call line with
    | some fault =>
      report call ("standard output: " ++ reason fault)
      return .exited 1
    | none =>
      modify fun m => m.writeForEver call.streams.output line
      endForEver call "standard output" 1

end LineShell.Toolbox
