import Questionnaire.CommandLine
import Std.Time.DateTime.Timestamp

/-! The program: arguments and files in, an outcome out. -/
namespace Questionnaire.CommandLine

/-- Read a file as text. -/
def stateOf (path : String) : IO FileState := do
  try
    return .text (← IO.FS.readFile path)
  catch
    | .noFileOrDirectory .. => return .missing
    | fault => return .unreadable fault.toString

/-- Seconds since the start of 1970. -/
def secondsNow : IO Int64 := do
  return .ofInt (← Std.Time.Timestamp.now).toSecondsSinceUnixEpoch.val

end Questionnaire.CommandLine

open Questionnaire CommandLine in
def main (arguments : List String) : IO UInt32 := do
  let request := Request.ofArguments? arguments
  let paths := (request.map Request.paths).getD []
  let states ← paths.mapM fun path => return (path, ← stateOf path)
  let outcome := run (fun path => (states.lookup path).getD .missing) (← secondsNow) request
  IO.print outcome.stdout
  IO.eprint outcome.stderr
  return outcome.exit.toUInt32
