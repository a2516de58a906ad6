import TileFusion.Command

/-!
# The program

Follows the action of the command line on real files.
-/

namespace TileFusion

/-- The number of a system error, which some operations report with a minus. -/
def errorNumber (code : UInt32) : Nat :=
  min code.toNat (0 - code).toNat

/-- What the system's report of a failed file operation means. -/
def fileErrorOf : IO.Error → FileError
  | .noFileOrDirectory .. => .notFound
  | .permissionDenied .. => .other "Permission denied (os error 13)"
  | .inappropriateType _ code details =>
    match errorNumber code with
    | 20 => .notADirectory
    | 21 => .isADirectory
    | _ => .other details
  | .invalidArgument _ code details =>
    if errorNumber code = 36 then .nameTooLong else .other details
  | error => .other (toString error)

/-- Reads the text of a file. -/
def readText (path : String) : IO (Except FileError String) := do
  try
    return (FileContents.ofBytes (← IO.FS.readBinFile path)).read
  catch error => return .error (fileErrorOf error)

/-- Writes a text into a file. -/
def writeText (path text : String) : IO (Except FileError Unit) := do
  try
    return .ok (← IO.FS.writeFile path text)
  catch error => return .error (fileErrorOf error)

/-- Follows an action. -/
def Action.perform : Action → IO Outcome
  | finish outcome => return outcome
  | read path next => do (next (← readText path)).perform
  | write path text next => do (next (← writeText path text)).perform

end TileFusion

/-- Runs the command line. -/
def main (args : List String) : IO UInt32 := do
  let outcome ← (TileFusion.command (← IO.getEnv "CHIP_ARCH") args).perform
  IO.print outcome.output
  IO.eprint outcome.report
  return outcome.code.toUInt32
