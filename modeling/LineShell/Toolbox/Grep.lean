import LineShell.Toolbox.Basic
import LineShell.Toolbox.Pattern

/-!
# Looking for lines

`grep` shows the lines of its files that hold a match of its pattern, or those that hold none, or
counts them.
-/

namespace LineShell.Toolbox.Grep

/-- What is looked for, and how it is shown. -/
structure Request where
  pattern : Pattern
  inverted : Bool
  counts : Bool
  quiet : Bool
  /-- The names of files stand before what is shown of them. -/
  named : Bool

/-- What has been shown, and whether anything was found or something went wrong. -/
structure Progress where
  output : Bytes
  found : Bool
  faulty : Bool

/-- The name under which an input is shown. -/
def displayName (path : String) : String := if path = "-" then "(standard input)" else path

/-- What is shown of lines that were found. -/
def Request.shown (request : Request) (path : String) (lines : List Bytes) : Bytes :=
  let front := if request.named then octets (displayName path ++ ":") else []
  if request.quiet then []
  else if request.counts then front ++ octets (lines.length.repr ++ "\n")
  else lines.flatMap fun line => front ++ closed line

/-- Searches one file. -/
def searchFile (call : Call) (request : Request) (p : Progress) (path : String) :
    Action Progress := do
  match ← namedInput call path with
  | .error fault =>
    report call (displayName path ++ ": " ++ reason fault)
    return { p with faulty := true }
  | .ok input =>
    let lines := (linesOf input.known).filter fun line =>
      (request.pattern.find? true (body line)).isSome != request.inverted
    return ⟨p.output ++ request.shown path lines, p.found || !lines.isEmpty, p.faulty⟩

end Grep

open Grep in
/-- Looks for lines. -/
def grep : Program := program fun call =>
  withSwitches call (.ofLetters "cqv") 2 fun reading => do
    let usage : Action Ending := do
      complain call ("Usage: " ++ calledName call ++ " [OPTION]... PATTERNS [FILE]...\n")
      hint call 2
    match reading.operands with
    | [] => usage
    | text :: paths =>
      match Pattern.ofText? ((octets text).map charOf) with
      | none =>
        report call "Unmatched [, [^, [:, [., or [="
        return .exited 2
      | some pattern =>
        let request : Request :=
          ⟨pattern, reading.has 'v', reading.has 'c', reading.has 'q', 1 < paths.length⟩
        let p ← (if paths.isEmpty then ["-"] else paths).foldlM (searchFile call request)
          ⟨[], false, false⟩
        match ← emit call p.output with
        | some fault =>
          report call ("write error: " ++ reason fault)
          return .exited 2
        | none => return .exited (if p.faulty then 2 else if p.found then 0 else 1)

end LineShell.Toolbox
