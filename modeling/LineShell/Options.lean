import LineShell.Text.Numeral
import LineShell.Text.Path

/-!
# Options and operands

An option grammar says which options a command has and how many operands it takes. Arguments are
read from the left: `--help` or `help` asks for the help text, other arguments that begin with `-`
are options, `--` ends the options, and the rest are operands. The first fault ends the reading.
The help text wins over everything but a fault.
-/

namespace LineShell.Options

/-- How many operands a command takes. -/
inductive Arity where
  | none
  | atMostOne
  /-- Any number; after the first one nothing is an option any more. -/
  | greedy
  deriving DecidableEq, Repr

/-- An option, by its spellings. -/
structure Choice where
  spellings : List String
  /-- The next argument is the value of the option. -/
  valued : Bool
  deriving DecidableEq, Repr

/-- The options and operands of a command. -/
structure Grammar where
  help : String
  choices : List Choice
  arity : Arity
  /-- What is wrong with an operand. -/
  operandFault : String → Option String

/-- What was given. Options are listed by their first spelling. -/
structure Given where
  values : List (String × String)
  switches : List String
  operands : List String
  deriving DecidableEq, Repr

/-- What is wrong with a list of arguments. -/
inductive Fault where
  | unrecognised (argument : String)
  | missingValue (option : String)
  | duplicate (option value : String)
  | operand (description : String)
  | afterHelp
  deriving DecidableEq, Repr

/-- The report of a fault. -/
def Fault.message : Fault → String
  | .unrecognised argument => "Unrecognized argument: " ++ argument ++ "\n"
  | .missingValue option => "No value provided for option '" ++ option ++ "'.\n"
  | .duplicate option value =>
    "Error parsing option '" ++ option ++ "' with value '" ++ value ++
      "': duplicate values provided\n"
  | .operand description => description ++ "\n"
  | .afterHelp => "Trailing arguments are not allowed after `help`."

/-- The outcome of reading arguments. -/
inductive Outcome where
  | given (given : Given)
  | help (text : String)
  | faulty (fault : Fault)
  deriving DecidableEq, Repr

/-- What is known between two arguments. -/
structure Progress where
  given : Given
  helpSeen : Bool
  optionsEnded : Bool
  deriving DecidableEq, Repr

/-- Takes an operand. -/
def Grammar.takeOperand (g : Grammar) (p : Progress) (argument : String) : Except Fault Progress :=
  let full := match g.arity with
    | .none => true
    | .atMostOne => !p.given.operands.isEmpty
    | .greedy => false
  if full then .error (.unrecognised argument)
  else match g.operandFault argument with
    | some description => .error (.operand description)
    | Option.none =>
      .ok { p with
        given := { p.given with operands := p.given.operands ++ [argument] }
        optionsEnded := p.optionsEnded || g.arity = .greedy }

/-- Reads arguments from the left. -/
def Grammar.readFrom (g : Grammar) (p : Progress) : List String → Outcome
  | [] => if p.helpSeen then .help g.help else .given p.given
  | argument :: rest =>
    if !p.optionsEnded && (argument = "--help" || argument = "help") then
      readFrom g { p with helpSeen := true } rest
    else if !p.optionsEnded && argument = "--" then
      readFrom g { p with optionsEnded := true } rest
    else if !p.optionsEnded && argument.toList.head? = some '-' then
      if p.helpSeen then .faulty .afterHelp
      else match g.choices.find? (·.spellings.contains argument) with
        | Option.none => .faulty (.unrecognised argument)
        | some choice =>
          let key := choice.spellings.headD ""
          if choice.valued then
            match rest with
            | [] => .faulty (.missingValue argument)
            | value :: rest =>
              if p.given.values.any (·.1 == key) then .faulty (.duplicate argument value)
              else
                readFrom g
                  { p with given := { p.given with values := p.given.values ++ [(key, value)] } }
                  rest
          else
            readFrom g { p with given := { p.given with switches := p.given.switches ++ [key] } }
              rest
    else
      match g.takeOperand p argument with
      | .error fault => .faulty fault
      | .ok next => readFrom g next rest

/-- Reads the arguments of a command. -/
def Grammar.read (g : Grammar) (arguments : List String) : Outcome :=
  g.readFrom ⟨⟨[], [], []⟩, false, false⟩ arguments

/-- The value of an option, by its first spelling. -/
def Given.value? (given : Given) (key : String) : Option String := given.values.lookup key

/-- The first operand. -/
def Given.operand? (given : Given) : Option String := given.operands.head?

end LineShell.Options
