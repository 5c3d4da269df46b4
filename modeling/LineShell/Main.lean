import LineShell.Invocation
import LineShell.StandardMachine

/-!
# The command line

Runs the shell on the standard machine. Keys come from the standard input, which is read to its end
first; what the session writes is printed when it has ended.
-/

namespace LineShell

/-- All octets of a stream. -/
partial def readToEnd (stream : IO.FS.Stream) (known : ByteArray) : IO ByteArray := do
  let more ← stream.read 65536
  if more.isEmpty then return known
  readToEnd stream (known ++ more)

/-- The variables that the shell consults, as far as they are set. -/
def consulted : IO Environment := do
  let entries ← ["PATH", "HOME", "HISTFILE"].filterMapM fun name => do
    return (← IO.getEnv name).map fun value => (name, value)
  return Environment.ofList entries

/-- Prints octets. -/
def printOctets (stream : IO.FS.Stream) (written : Bytes) : IO Unit := do
  stream.write (ByteArray.mk written.toArray)
  stream.flush

/-- Runs a session from the root directory and answers the exit status. -/
def runSession (historyFile : Option String) (prompt : String) : IO UInt32 := do
  let environment ← consulted
  let keys ← readToEnd (← IO.getStdin) ByteArray.empty
  let keys := keys.toList
  let session : Session :=
    { shell := ⟨environment, environment, .root, History.empty⟩
      machine := StandardMachine.machine StandardMachine.volume keys none
      input := keys.map Read.octet
      shown := ""
      modes := [] }
  let (after, ending) :=
    session.run ⟨prompt, historyFile, false, true⟩ StandardMachine.host
  printOctets (← IO.getStdout) (after.machine.unread StandardMachine.streams.output).1
  printOctets (← IO.getStderr)
    ((after.machine.unread StandardMachine.streams.error).1 ++ octets ending.report)
  match ending with
  | .finished code => return UInt32.ofNat (code % 256).toNat
  | .inputFailed _ => return 1
  | .killed signal => return UInt32.ofNat (128 + signal)

end LineShell

open LineShell in
/-- Runs the shell with the arguments of its command line. -/
def main (arguments : List String) : IO UInt32 := do
  match Invocation.ofArguments arguments with
  | .session historyFile prompt => runSession historyFile prompt
  | .help text =>
    (← IO.getStdout).putStr text
    return 0
  | .usage text =>
    (← IO.getStderr).putStr text
    return 1
