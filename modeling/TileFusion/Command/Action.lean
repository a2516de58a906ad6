import TileFusion.Command.Disk

/-!
# Actions of a command

A command decides what to do next from what its files turn out to hold. `Action` is that decision
as data: it ends with an outcome, or asks for one file operation and goes on with the answer.
`Action.run` follows an action on a disk in memory; a program follows the same action on real files.
-/

namespace TileFusion

/-- What a finished command leaves behind, its files aside. -/
structure Outcome where
  code : Nat
  /-- Text on the standard output. -/
  output : String
  /-- Text on the standard error. -/
  report : String
  deriving DecidableEq, Repr

namespace Outcome

/-- The command did what it was asked for. -/
def success (output : String) : Outcome :=
  ⟨0, output, ""⟩

/-- The command only has something to tell its user. -/
def notice (report : String) : Outcome :=
  ⟨0, "", report⟩

/-- The command gave up. -/
def failure (report : String) : Outcome :=
  ⟨1, "", report⟩

end Outcome

/-- What a command does next. -/
inductive Action where
  | finish (outcome : Outcome)
  | read (path : String) (next : Except FileError String → Action)
  | write (path text : String) (next : Except FileError Unit → Action)

namespace Action

/-- Follows an action on a disk. -/
def run (disk : Disk) : Action → Outcome × Disk
  | finish outcome => (outcome, disk)
  | read path next => (next (disk.read path)).run disk
  | write path text next =>
    match disk.write path text with
    | .error error => (next (.error error)).run disk
    | .ok written => (next (.ok ())).run written

end Action

end TileFusion
