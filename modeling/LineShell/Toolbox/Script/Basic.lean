import LineShell.Toolbox.Basic

/-!
# Scripts

A script is made of commands, a command of words, and a word of pieces: text that stands for itself
and parameters whose values are put in when the command is run. `Script.Command` is a script that
has been read.

Scripts know octets, not characters. Their texts are lists of the characters of octets.
-/

namespace LineShell.Toolbox.Script

/-- A text of a script: the characters of its octets. -/
abbrev Text := List Char

/-- The characters of octets. -/
def textOfOctets (octets : Bytes) : Text := octets.map charOf

/-- The characters of a text's octets. -/
def textOf (s : String) : Text := textOfOctets (octets s)

/-- The octets of a text. -/
def octetsOf (text : Text) : Bytes := text.map fun c => c.toNat.toUInt8

/-- The text in characters of its own. -/
def stringOf (text : Text) : String := Utf8.lossy (octetsOf text)

/-- A piece of a word. Quoted pieces are not cut into fields. -/
inductive Piece where
  | text (text : Text) (quoted : Bool)
  /-- The value of a parameter. -/
  | value (name : Text) (quoted : Bool)
  deriving DecidableEq

/-- A word of a script. -/
abbrev Word := List Piece

/-- How a file is opened for a redirect. -/
inductive Opening where
  | reading
  | writing
  | appending
  deriving DecidableEq, Repr

/-- A redirect. -/
inductive Diversion where
  | file (descriptor : Nat) (opening : Opening) (path : Word)
  /-- To where the descriptor goes that a word names; a dash closes. -/
  | copy (descriptor : Nat) (source : Word)

/-- A command. -/
inductive Command where
  | simple (line : Nat) (assignments : List (Text × Word)) (words : List Word)
      (diversions : List Diversion)
  | pipeline (stages : List Command)
  | negation (inner : Command)
  | both (left right : Command)
  | either (left right : Command)
  | sequence (left right : Command)
  /-- On a copy of the interpreter, with redirects. -/
  | copy (inner : Command) (diversions : List Diversion)
  | choice (condition yes : Command) (no : Option Command)
  /-- As long as the condition ends with success, or until it does. -/
  | loop (until_ : Bool) (condition action : Command)
  /-- For each field of some words. -/
  | each (name : Text) (words : List Word) (action : Command)

/-- Characters that a name may begin with. -/
def startsName (c : Char) : Bool := c.isAlpha || c == '_'

/-- Characters of names. -/
def isNameChar (c : Char) : Bool := c.isAlphanum || c == '_'

/-- Whether a text is a name. -/
def isName : Text → Bool
  | [] => false
  | c :: rest => startsName c && rest.all isNameChar

/-- The parameters with one sign for a name. -/
def isSpecialParameter (c : Char) : Bool := "#?$*@".toList.contains c || c.isDigit

/-- The plain text of a word without quotes and values. -/
def plainText? : Word → Option Text
  | [.text text false] => some text
  | _ => none

/-- The assignment that a word is. -/
def assignment? : Word → Option (Text × Word)
  | .text text false :: rest =>
    let name := text.takeWhile isNameChar
    match text.drop name.length with
    | '=' :: value =>
      if isName name then some (name, if value.isEmpty then rest else .text value false :: rest)
      else none
    | _ => none
  | _ => none

end LineShell.Toolbox.Script
