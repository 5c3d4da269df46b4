/-!
# Decimal numerals within a range

A numeral is an optional sign and at least one digit. Digits are taken from the left, and reading
stops at the first fault: a character that is no digit, or a value that has left the range. So a
numeral that is both too large and misspelt is reported for whichever fault comes first.
-/

namespace LineShell.Numeral

/-- Why a text is no numeral of the range. -/
inductive Fault where
  | empty
  | invalidDigit
  | tooLarge
  | tooSmall
  deriving DecidableEq, Repr

/-- The sentence that reports a fault. -/
def Fault.message : Fault → String
  | .empty => "cannot parse integer from empty string"
  | .invalidDigit => "invalid digit found in string"
  | .tooLarge => "number too large to fit in target type"
  | .tooSmall => "number too small to fit in target type"

/-- A range of integers. -/
structure Range where
  least : Int
  greatest : Int
  deriving DecidableEq, Repr

/-- Signed numbers of 32 bits. -/
def Range.signed32 : Range := ⟨-2147483648, 2147483647⟩

/-- Unsigned numbers of 64 bits. -/
def Range.unsigned64 : Range := ⟨0, 18446744073709551615⟩

/-- The value of a digit. -/
def digit? (c : Char) : Option Nat :=
  if c.isDigit then some (c.toNat - '0'.toNat) else none

/-- Reads digits onto a value, away from zero on the side of the sign. -/
def digits (range : Range) (negative : Bool) (value : Int) : List Char → Except Fault Int
  | [] => .ok value
  | c :: rest =>
    match digit? c with
    | none => .error .invalidDigit
    | some d =>
      let next := if negative then value * 10 - d else value * 10 + d
      if next > range.greatest then .error .tooLarge
      else if next < range.least then .error .tooSmall
      else digits range negative next rest

/-- Reads a numeral. A minus sign counts as a sign only where the range has negative numbers. -/
def read (range : Range) (text : String) : Except Fault Int :=
  match text.toList with
  | [] => .error .empty
  | ['+'] | ['-'] => .error .invalidDigit
  | '+' :: rest => digits range false 0 rest
  | '-' :: rest =>
    if range.least < 0 then digits range true 0 rest else .error .invalidDigit
  | text => digits range false 0 text

end LineShell.Numeral
