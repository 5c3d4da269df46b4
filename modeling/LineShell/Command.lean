/-!
# Commands

A command is a program with its operands and redirects. A pipeline is a list of commands, each of
which writes into the next.
-/

namespace LineShell

/-- The stream of a command that a redirect replaces. -/
inductive Target where
  | output
  | error
  /-- A descriptor that is neither; its file is opened and left alone. -/
  | unknown (descriptor : Nat)
  deriving DecidableEq, Repr

/-- The stream that a descriptor number stands for. -/
def Target.ofDescriptor : Nat → Target
  | 1 => .output
  | 2 => .error
  | n => .unknown n

/-- Sends one stream of a command into a file. -/
structure Redirect where
  target : Target
  path : String
  /-- Write after what the file holds, instead of emptying it first. -/
  append : Bool
  deriving DecidableEq, Repr

/-- A program with operands and redirects. -/
structure Command where
  program : String
  operands : List String
  redirects : List Redirect
  deriving DecidableEq, Repr

/-- The arguments of a command, its program first. -/
def Command.arguments (c : Command) : List String := c.program :: c.operands

/-- A command from its arguments, if there are any. -/
def Command.ofArguments? (arguments : List String) (redirects : List Redirect) : Option Command :=
  match arguments with
  | [] => none
  | program :: operands => some ⟨program, operands, redirects⟩

theorem Command.ofArguments?_arguments (c : Command) :
    Command.ofArguments? c.arguments c.redirects = some c := rfl

end LineShell
