import LineShell.Failure
import LineShell.Text.Numeral

/-!
# Failures of builtins

A builtin that fails reports one line on its error stream and has status one.
-/

namespace LineShell

/-- Why a builtin gave up. -/
inductive BuiltinFailure where
  | statusNotNumeric (text : String) (fault : Numeral.Fault)
  | tooManyStatuses
  /-- There is no current directory any more. -/
  | noDirectory (builtin : String) (fault : FileFault)
  | historyFile (path : String) (fault : FileFault)
  | countNotPositive
  /-- A stream of the builtin could not be written. -/
  | stream (fault : FileFault)
  deriving DecidableEq, Repr

/-- The report of a failure. -/
def BuiltinFailure.message : BuiltinFailure → String
  | .statusNotNumeric text fault =>
    "exit: " ++ text ++ ": numeric argument required: " ++ fault.message
  | .tooManyStatuses => "exit: too many arguments"
  | .noDirectory builtin fault => builtin ++ ": " ++ fault.message
  | .historyFile path fault => "history: " ++ path ++ ": " ++ fault.message
  | .countNotPositive => "history: count must be positive"
  | .stream fault => fault.message

/-- Whether a builtin gave up because nobody reads what it writes. -/
def BuiltinFailure.isUnread : BuiltinFailure → Bool
  | .historyFile _ fault | .stream fault => fault = .refused .brokenPipe
  | _ => false

end LineShell
