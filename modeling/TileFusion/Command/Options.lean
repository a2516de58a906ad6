import TileFusion.FormatPlan

/-!
# Options of the commands

Arguments are taken from left to right, and the first one that settles the run does: a request for
help, a name that is not known, an argument that has no place. An option that is given twice counts
the last time.
-/

namespace TileFusion

/-- Why the arguments do not lead to a run. -/
inductive Stop where
  | help
  | incomplete
  /-- An argument has no place. -/
  | unexpected (argument : String)
  | unknownPlatform (unknown : Platform.Unknown)
  | unknownFormat (unknown : DataFormat.Unknown)
  deriving DecidableEq, Repr

/-- The platform of a name. -/
def platformNamed (name : String) : Except Stop Platform :=
  (Platform.parse name).mapError .unknownPlatform

/-- The format of a name. -/
def formatNamed (name : String) : Except Stop DataFormat :=
  (DataFormat.parse name).mapError .unknownFormat

/-- Whether an argument asks for help. -/
def asksForHelp (argument : String) : Bool :=
  argument == "--help" || argument == "-h"

/-- What the arguments of `compile` have said so far. -/
structure CompileArguments where
  path : Option String
  output : Option String
  platform : Option Platform
  deriving DecidableEq, Repr

namespace CompileArguments

/-- Nothing said. -/
def empty : CompileArguments :=
  ⟨none, none, none⟩

/-- Takes the arguments one after the other. -/
def take (said : CompileArguments) : List String → Except Stop CompileArguments
  | [] => .ok said
  | argument :: rest =>
    if argument == "--out" || argument == "-o" then
      match rest with
      | [] => .error .incomplete
      | output :: rest => take { said with output := some output } rest
    else if argument == "--platform" then
      match rest with
      | [] => .error .incomplete
      | name :: rest => do take { said with platform := some (← platformNamed name) } rest
    else if asksForHelp argument then .error .help
    else if said.path.isSome then .error (.unexpected argument)
    else take { said with path := some argument } rest

end CompileArguments

/-- What `compile` is asked to do. -/
structure CompileOptions where
  path : String
  /-- The file that takes the kernel; without one it goes to the standard output. -/
  output : Option String
  /-- The target, if the arguments choose it. -/
  platform : Option Platform
  deriving DecidableEq, Repr

/-- Reads the arguments of `compile`. -/
def CompileOptions.parse (arguments : List String) : Except Stop CompileOptions := do
  let said ← CompileArguments.empty.take arguments
  match said.path with
  | none => .error .incomplete
  | some path => .ok ⟨path, said.output, said.platform⟩

/-- What the arguments of `formats` have said so far. -/
structure FormatsArguments where
  formats : List DataFormat
  accumulate : Bool
  unpackToDest : Bool
  platform : Option Platform
  deriving DecidableEq, Repr

namespace FormatsArguments

/-- Nothing said. -/
def empty : FormatsArguments :=
  ⟨[], false, false, none⟩

/-- Takes the arguments one after the other. -/
def take (said : FormatsArguments) : List String → Except Stop FormatsArguments
  | [] => .ok said
  | argument :: rest =>
    if argument == "--acc" then take { said with accumulate := true } rest
    else if argument == "--unpack-to-dest" then take { said with unpackToDest := true } rest
    else if argument == "--platform" then
      match rest with
      | [] => .error .incomplete
      | name :: rest => do take { said with platform := some (← platformNamed name) } rest
    else if asksForHelp argument then .error .help
    else if 2 ≤ said.formats.length then .error (.unexpected argument)
    else do take { said with formats := said.formats ++ [← formatNamed argument] } rest

end FormatsArguments

/-- What `formats` is asked about: a stage that loads one format and stores another. -/
structure FormatsOptions where
  load : DataFormat
  store : DataFormat
  accumulate : Bool
  unpackToDest : Bool
  /-- The target, if the arguments choose it. -/
  platform : Option Platform
  deriving DecidableEq, Repr

/-- Reads the arguments of `formats`. -/
def FormatsOptions.parse (arguments : List String) : Except Stop FormatsOptions := do
  let said ← FormatsArguments.empty.take arguments
  match said.formats with
  | [load, store] => .ok ⟨load, store, said.accumulate, said.unpackToDest, said.platform⟩
  | _ => .error .incomplete

end TileFusion
