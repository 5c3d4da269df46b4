import LineShell.Command
import LineShell.Failure
import LineShell.Machine

/-!
# Redirected streams

The redirects of a command are opened in order. Every file is created or emptied as its redirect
asks, also when a later redirect replaces it and when its descriptor is none that a command has.
For each stream the last redirect counts, and what was opened for it before is closed at once. The
first file that cannot be opened ends the opening; what was opened before stays created or emptied.
-/

namespace LineShell

/-- The streams of a process, as rows of the machine's table of channels. -/
structure Streams where
  input : Nat
  output : Nat
  error : Nat
  deriving DecidableEq, Repr

/-- The streams that redirects replace. -/
structure Redirection where
  output : Option Nat
  error : Option Nat
  deriving DecidableEq, Repr

namespace Redirection

/-- Nothing is replaced. -/
def none : Redirection := ⟨.none, .none⟩

/-- Sends a stream to a channel, instead of where it went before. -/
def send (r : Redirection) : Target → Nat → Redirection
  | .output, row => { r with output := some row }
  | .error, row => { r with error := some row }
  | .unknown _, _ => r

/-- The channel that nobody needs any more once a stream goes to another one. -/
def superseded (r : Redirection) : Target → Nat → Option Nat
  | .output, _ => r.output
  | .error, _ => r.error
  | .unknown _, row => some row

/-- Closes the channel that is not needed any more once a stream goes to another one. -/
def closeSuperseded (r : Redirection) (m : Machine) (target : Target) (row : Nat) : Machine :=
  match r.superseded target row with
  | some old => m.close old
  | .none => m

/-- The streams of a process whose redirects are in force. -/
def apply (r : Redirection) (streams : Streams) : Streams :=
  { streams with output := r.output.getD streams.output, error := r.error.getD streams.error }

/-- Opens redirects in order, after those that are in force already. -/
def openFrom (r : Redirection) (m : Machine) (cwd : WorkingDirectory) :
    List Redirect → Machine × Except ShellError Redirection
  | [] => (m, .ok r)
  | redirect :: rest =>
    match m.openFile cwd redirect.path redirect.append with
    | .error fault => (m, .error (.redirectOpen redirect.path fault))
    | .ok (opened, row) =>
      openFrom (r.send redirect.target row) (r.closeSuperseded opened redirect.target row) cwd rest

/-- Opens the redirects of a command. -/
def openAll (m : Machine) (cwd : WorkingDirectory) (redirects : List Redirect) :
    Machine × Except ShellError Redirection :=
  none.openFrom m cwd redirects

end Redirection

end LineShell
