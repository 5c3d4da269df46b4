import LineShell.Text.Utf8

/-!
# The first line of a script

A file that begins with `#!` is a script: its first line names the interpreter that runs it and
perhaps one argument. Only the first 256 octets of a file are looked at. A header that ends within
them with a line feed is complete. Otherwise it is read to the end of what is looked at, and counts
only if a blank or a zero octet shows that the interpreter's name is complete; a shorter file is
followed by zero octets.

Blanks before the name and between name and argument do not count, nor do blanks at the end of the
line. The argument is everything behind them, blanks included.
-/

namespace LineShell

/-- What the first line of a script asks for. -/
structure ScriptHeader where
  interpreter : Bytes
  argument : Option Bytes
  deriving DecidableEq, Repr

namespace ScriptHeader

/-- Octets of a file that are looked at. -/
def window : Nat := 256

/-- Spaces and tabulators. -/
def isBlank (octet : UInt8) : Bool := octet == 0x20 || octet == 0x09

/-- Octets that end the name of an interpreter. -/
def endsName (octet : UInt8) : Bool := isBlank octet || octet == 0

/-- Octets without the blanks at their end. -/
def dropBlanksAtEnd (text : Bytes) : Bytes := (text.reverse.dropWhile isBlank).reverse

/-- The rest of the first line behind `#!`, or else all that is looked at; `none` if there is no
line feed and the name of the interpreter may go on. -/
def line? (behind : Bytes) : Option Bytes :=
  let line := behind.takeWhile fun octet => octet != 0x0A && octet != 0
  if behind[line.length]? = some 0x0A then some line
  else
    let name := behind.dropWhile isBlank
    if name.any endsName then some behind.dropLast else none

/-- The name and the argument in a line. -/
def ofLine? (line : Bytes) : Option ScriptHeader :=
  match (dropBlanksAtEnd line).dropWhile isBlank with
  | [] => none
  | text =>
    let name := text.takeWhile (!endsName ·)
    match text.drop name.length with
    | [] => some ⟨name, none⟩
    | octet :: rest =>
      if isBlank octet then some ⟨name, some ((rest.dropWhile isBlank).takeWhile (· != 0))⟩
      else some ⟨name, none⟩

/-- The header of a file; `none` if it is no script, or its header is not complete. -/
def ofContents? (contents : Bytes) : Option ScriptHeader :=
  match contents.take window ++ List.replicate (window - contents.length) 0 with
  | 0x23 :: 0x21 :: behind => (line? behind).bind ofLine?
  | _ => none

end ScriptHeader

end LineShell
