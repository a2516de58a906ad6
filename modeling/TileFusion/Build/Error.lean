import TileFusion.Pipeline

/-!
# Build errors

Everything that can be wrong with a pipeline description, as causes, and how each is worded. A build
reports all causes at once; each belongs to a stage.
-/

namespace TileFusion

/-- Stages that do not hand the accumulator, or their outputs, on properly. -/
inductive FusionFault where
  | noStages
  | nothingToReuse
  | reuseMissing (previous : Nat)
  /-- The reused operand `name` is not `output`, which stage `previous` writes. -/
  | reuseMismatch (name : String) (previous : Nat) (output : String)
  | reuseUnnamed
  | readTooEarly (name : String) (producer : Option Nat)
  | outputOfOther (name : String) (producer : Nat)
  deriving DecidableEq, Repr

/-- Wording of a fusion fault. -/
def FusionFault.text : FusionFault → String
  | noStages => "pipeline has no stages"
  | nothingToReuse => "the first stage has no accumulator contents to reuse"
  | reuseMissing previous => s!"stage must reuse the accumulator written by stage {previous}"
  | reuseMismatch name previous output =>
    s!"reused operand '{name}' is not the output of stage {previous} ('{output}')"
  | reuseUnnamed => "reuse into source B needs src_b to name the reused operand"
  | readTooEarly name (some producer) =>
    s!"operand '{name}' is read before stage {producer} writes it"
  | readTooEarly name none => s!"operand '{name}' is read before it is written"
  | outputOfOther name producer =>
    s!"operand '{name}' is declared as the output of stage {producer}"

/-- Batches that the accumulator cannot take. -/
inductive CapacityFault where
  | emptyBatch
  | batchTooLarge (batch capacity : Nat)
  deriving DecidableEq, Repr

/-- Wording of a capacity fault. -/
def CapacityFault.text : CapacityFault → String
  | emptyBatch => "batch size must be at least 1"
  | batchTooLarge batch capacity =>
    s!"batch size {batch} exceeds accumulator capacity of {capacity} tiles"

/-- Combinations of units that the hardware does not offer. -/
inductive Restriction where
  /-- Tilizing reprograms what the other loaders share. -/
  | mixedTilize
  | unsupportedPair (loader : LoaderKind) (arithmetic : Arithmetic)
  | loaderCannotReuse (loader : LoaderKind)
  | arithmeticCannotReuse (arithmetic : Arithmetic)
  | noReductions
  | noTilize
  deriving DecidableEq, Repr

/-- Wording of a restriction. -/
def Restriction.text : Restriction → String
  | mixedTilize => "a tilizing loader cannot be fused with other loaders in one pipeline"
  | unsupportedPair loader arithmetic => s!"{loader.name} loader cannot feed {arithmetic.name}"
  | loaderCannotReuse loader => s!"{loader.name} loader cannot reuse the accumulator"
  | arithmeticCannotReuse arithmetic =>
    s!"{arithmetic.name} cannot read the accumulator as an operand"
  | noReductions => "reductions are not available"
  | noTilize => "unpack tilize is not available"

/-- Operands whose number or shape does not suit the stage. -/
inductive ShapeFault where
  | operandCount (arithmetic : Arithmetic) (wanted given : Nat)
  | brokenTiles (name : String) (dims : Dims)
  | innerMismatch (a : String) (cols : Nat) (b : String) (rows : Nat)
  | dimsMismatch (a : String) (dimsA : Dims) (b : String) (dimsB : Dims)
  | tooManyTiles (dims : Dims)
  deriving DecidableEq, Repr

/-- Wording of a shape fault. -/
def ShapeFault.text : ShapeFault → String
  | operandCount arithmetic wanted given =>
    s!"{arithmetic.name} reads {wanted} operand(s) from L1, {given} given"
  | brokenTiles name dims =>
    s!"operand '{name}' is {dims.text}; only whole {tileSide}x{tileSide} tiles are supported"
  | innerMismatch a cols b rows =>
    s!"matmul inner dimensions differ: '{a}' has {cols} columns, '{b}' has {rows} rows"
  | dimsMismatch a dimsA b dimsB => s!"'{a}' is {dimsA.text} but '{b}' is {dimsB.text}"
  | tooManyTiles dims => s!"{dims.text} output has too many tiles"

/-- Why a stage, or the pipeline, is refused. -/
inductive Cause where
  | format (error : FormatError)
  | fusion (fault : FusionFault)
  | capacity (fault : CapacityFault)
  | restriction (platform : Platform) (limit : Restriction)
  | shape (fault : ShapeFault)
  | duplicateOperand (name : String)
  | unknownOperand (name : String)
  | placement (error : RegistryError)
  deriving DecidableEq, Repr

namespace Cause

/-- Wording of a cause. -/
def text : Cause → String
  | format error => error.message
  | fusion fault => s!"fusion order: {fault.text}"
  | capacity fault => s!"accumulator capacity: {fault.text}"
  | restriction platform limit => s!"not supported on {platform.name}: {limit.text}"
  | shape fault => s!"shape: {fault.text}"
  | duplicateOperand name => (RegistryError.duplicate name).message
  | unknownOperand name => (RegistryError.unknown name).message
  | placement error => s!"placement: {error.message}"

/-- The cause that a failure of the registry amounts to. -/
def ofRegistry : RegistryError → Cause
  | .duplicate name => duplicateOperand name
  | .unknown name => unknownOperand name
  | error => placement error

end Cause

/-- A cause, with the stage that it belongs to. -/
structure BuildError where
  stage : Nat
  cause : Cause
  deriving DecidableEq, Repr

/-- Wording of one error. -/
def BuildError.message (e : BuildError) : String :=
  s!"stage {e.stage}: {e.cause.text}"

/-- Wording of all errors of a build. -/
def buildReport (errors : List BuildError) : String :=
  s!"pipeline has {errors.length} error(s)" ++
    String.join (errors.map fun e => "\n  " ++ e.message)

end TileFusion
