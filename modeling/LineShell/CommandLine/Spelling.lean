import LineShell.CommandLine

/-!
# How words and redirects are written

`Spells` relates a run of characters to the word that it stands for: a word is written in pieces,
each of them bare, escaped, or between quotes of one kind or the other. `Writes` relates a run of
characters to the arguments and redirects of one command, in the order in which they stand. Every
word can be written in infinitely many ways; reading gives back the word.
-/

namespace LineShell

/-- Characters that stand for themselves outside quotes. -/
def isBare (c : Char) : Bool :=
  !isSeparator c && c != '|' && c != '>' && c != '\'' && c != '"' && c != '\\'

/-- What stands between double quotes, and the text that it stands for. -/
inductive DoubleQuoted : List Char → List Char → Prop where
  | nil : DoubleQuoted [] []
  | plain {c : Char} {body text : List Char} (h : c ≠ '"' ∧ c ≠ '\\')
      (rest : DoubleQuoted body text) :
    DoubleQuoted (c :: body) (c :: text)
  | escaped {c : Char} {body text : List Char} (h : c = '"' ∨ c = '\\')
    (rest : DoubleQuoted body text) : DoubleQuoted ('\\' :: c :: body) (c :: text)
  | kept {c : Char} {body text : List Char} (h : c ≠ '"' ∧ c ≠ '\\')
      (rest : DoubleQuoted body text) :
    DoubleQuoted ('\\' :: c :: body) ('\\' :: c :: text)

/-- A piece of a word, and the text that it stands for. -/
inductive SpellsPiece : List Char → List Char → Prop where
  | bare {c : Char} (h : isBare c = true) : SpellsPiece [c] [c]
  | escaped (c : Char) : SpellsPiece ['\\', c] [c]
  | single {text : List Char} (h : '\'' ∉ text) : SpellsPiece ('\'' :: text ++ ['\'']) text
  | double {body text : List Char} (h : DoubleQuoted body text) :
    SpellsPiece ('"' :: body ++ ['"']) text

/-- Pieces in a row, and the text that they stand for. -/
inductive Spells : List Char → List Char → Prop where
  | one {piece text : List Char} (h : SpellsPiece piece text) : Spells piece text
  | more {piece text pieces word : List Char} (h : SpellsPiece piece text)
      (rest : Spells pieces word) :
    Spells (piece ++ pieces) (text ++ word)

/-- Runs of separators, also empty ones. -/
def IsGap (gap : List Char) : Prop := ∀ c ∈ gap, isSeparator c = true

/-- The ways to begin a redirect: a `>` stands for the output stream, any stream may be named by the
digit of its descriptor, and a second `>` asks to append. -/
inductive Arrow : List Char → Target → Bool → Prop where
  | output (append : Bool) : Arrow (if append then ['>', '>'] else ['>']) .output append
  | digit (d : Fin 10) (append : Bool) :
    Arrow (Char.ofNat ('0'.toNat + d) :: if append then ['>', '>'] else ['>'])
      (Target.ofDescriptor d) append

/-- What may stand right behind an argument: nothing, a separator, or the `>` of a redirect unless
the argument is written as one digit, which would name a descriptor. -/
def MayEndArgument (word rest : List Char) : Prop :=
  ∀ c ∈ rest.head?, isSeparator c = true ∨ (c = '>' ∧ ∀ d, word = [d] → d.isDigit = false)

/-- What may stand right behind the path of a redirect. -/
def MayEndPath (rest : List Char) : Prop :=
  ∀ c ∈ rest.head?, isSeparator c = true ∨ c = '>'

/-- What one command is written as, with the arguments and redirects that it has. -/
inductive Writes : List Char → List String → List Redirect → Prop where
  | nil {gap : List Char} (h : IsGap gap) : Writes gap [] []
  | argument {gap word rest : List Char} {argument : String} {arguments : List String}
    {redirects : List Redirect} (hgap : IsGap gap) (hword : Spells word argument.toList)
    (hne : argument ≠ "") (hrest : Writes rest arguments redirects)
    (hends : MayEndArgument word rest) :
    Writes (gap ++ word ++ rest) (argument :: arguments) redirects
  | redirect {gap arrow space word rest : List Char} {target : Target} {append : Bool}
    {path : String} {arguments : List String} {redirects : List Redirect} (hgap : IsGap gap)
    (harrow : Arrow arrow target append) (hspace : IsGap space) (hword : Spells word path.toList)
    (hne : path ≠ "") (hrest : Writes rest arguments redirects)
    (hends : MayEndPath rest) :
    Writes (gap ++ arrow ++ space ++ word ++ rest) arguments (⟨target, path, append⟩ :: redirects)

/-- What a pipeline is written as. -/
inductive WritesLine : List Char → List Command → Prop where
  | one {line : List Char} {command : Command}
    (h : Writes line command.arguments command.redirects) : WritesLine line [command]
  | more {line rest : List Char} {command : Command} {commands : List Command}
    (h : Writes line command.arguments command.redirects) (hrest : WritesLine rest commands) :
    WritesLine (line ++ '|' :: rest) (command :: commands)

end LineShell
