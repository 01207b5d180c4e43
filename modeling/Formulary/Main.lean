import Std.Time.DateTime.Timestamp
import Formulary.CommandLine

/-!
# The program

Reads the file of a command, runs the command in the world outside, and prints its outcome.
-/

namespace Formulary

/-- The instant of a number of nanoseconds since the epoch; the epoch itself where there is none. -/
def Instant.ofNanos (n : Int) : Instant :=
  (Instant.of? (n / 1000000000) (n % 1000000000).toNat).getD Instant.epoch

instance : Console IO where
  printLine
    | .output, s => IO.println s
    | .error, s => IO.eprintln s
  now := do
    return Instant.ofNanos (← Std.Time.Timestamp.now).toNanosecondsSinceUnixEpoch.toInt

def readText? (file : String) : IO (Option String) := do
  try return some (← IO.FS.readFile file) catch _ => return none

/-- Prints an outcome and gives its exit code. -/
def Command.Outcome.report (o : Command.Outcome) : IO UInt32 := do
  IO.print o.output
  IO.eprint o.errors
  return o.exitCode.toUInt32

end Formulary

open Formulary

def main (args : List String) : IO UInt32 := do
  match Command.ofArguments? args with
  | none => Command.misuse.report
  | some command => do
    let contents ← match command.file? with
      | some file => readText? file
      | none => pure none
    (← command.run contents).report
