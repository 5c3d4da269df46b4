import LineShell.Text.Utf8
import LineShell.Text.Path

/-!
# Options of tools

Tools take options of one letter, several of which may share one argument. Options may stand
anywhere among the operands up to `--`. An option may take a value: the rest of its argument or, if
that is empty, the next argument.

Options come out in the order in which they were given, up to the first fault.
-/

namespace LineShell.Toolbox

/-- The options of a tool. -/
structure Switches where
  /-- The letters, each with whether its option takes a value. -/
  letters : List (Char × Bool)
  /-- The first operand ends the options. -/
  leading : Bool := false

/-- An option that was given. -/
structure Switch where
  letter : Char
  value : Option String
  deriving DecidableEq, Repr

/-- What was given: options up to a fault, if there is one, and the operands. -/
structure SwitchReading where
  given : List Switch
  operands : List String
  fault : Option Bytes
  deriving DecidableEq, Repr

namespace Switches

/-- Options without values. -/
def ofLetters (letters : String) : Switches where
  letters := letters.toList.map fun letter => (letter, false)

/-- A fault with the first octet of a letter in quotes. -/
def aboutLetter (text : String) (letter : Char) : Bytes :=
  octets (text ++ "'") ++ (octets (String.singleton letter)).take 1 ++ octets "'"

/-- The letters of one argument. Answers the options, whether the next argument was taken as a
value, and the fault. -/
def readLetters (switches : Switches) (next : Option String) :
    List Char → List Switch × Bool × Option Bytes
  | [] => ([], false, none)
  | letter :: rest =>
    match switches.letters.lookup letter with
    | none => ([], false, some (aboutLetter "invalid option -- " letter))
    | some false =>
      let (given, took, fault) := readLetters switches next rest
      (⟨letter, none⟩ :: given, took, fault)
    | some true =>
      match rest, next with
      | [], some value => ([⟨letter, some value⟩], true, none)
      | [], none => ([], false, some (aboutLetter "option requires an argument -- " letter))
      | rest, _ => ([⟨letter, some (String.ofList rest)⟩], false, none)

/-- Reads arguments. -/
def read (switches : Switches) : List String → SwitchReading
  | [] => ⟨[], [], none⟩
  | "--" :: rest => ⟨[], rest, none⟩
  | argument :: rest =>
    match argument.toList with
    | '-' :: '-' :: _ => ⟨[], [], some (octets ("unrecognized option '" ++ argument ++ "'"))⟩
    | '-' :: c :: letters => after (switches.readLetters rest.head? (c :: letters)) rest
    | _ =>
      if switches.leading then ⟨[], argument :: rest, none⟩
      else
        let reading := read switches rest
        { reading with operands := argument :: reading.operands }
where
  /-- What one argument gave, before what follows it. -/
  after : List Switch × Bool × Option Bytes → List String → SwitchReading
    | (given, _, some fault), _ => ⟨given, [], some fault⟩
    | (given, false, none), rest =>
      let reading := read switches rest
      { reading with given := given ++ reading.given }
    | (given, true, none), [] => ⟨given, [], none⟩
    | (given, true, none), _ :: rest =>
      let reading := read switches rest
      { reading with given := given ++ reading.given }

end Switches

/-- Whether an option was given. -/
def SwitchReading.has (reading : SwitchReading) (letter : Char) : Bool :=
  reading.given.any (·.letter == letter)

end LineShell.Toolbox
