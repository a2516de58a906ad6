import TileFusion.Description.Schema
import TileFusion.Scalar.Decimal

/-!
# Checks of a description

What a description has to satisfy by itself, before a pipeline is built from it. The first fault
that is found is the one that is reported: inputs come before stages, and both in order.
-/

namespace TileFusion

/-- What is wrong with a description. -/
inductive DescriptionFault where
  | brokenTiles (name : String) (dims : Dims)
  | repeatedInput (name : String)
  | repeatedOutput (stage : Nat) (name : String)
  | incompleteReduce (stage : Nat)
  | notReduce (stage : Nat)
  | missingOp (stage : Nat)
  | notEltwise (stage : Nat)
  /-- A spread without a broadcasting loader, or the other way round. -/
  | broadcastMismatch (stage : Nat)
  | zeroIterations (stage : Nat)
  | innerMismatch (stage : Nat) (cols rows : Nat)
  /-- The registry refuses an operand. -/
  | registry (error : RegistryError)
  | incompleteArithmetic (stage : Nat)
  | unknownUnary (name : String)
  | unknownBinary (name : String)
  | infiniteFill (stage : Nat) (fill : Scalar binary32)
  | fillOnBinary (stage : Nat)
  deriving DecidableEq, Repr

namespace DescriptionFault

/-- Wording of a fault. -/
def text : DescriptionFault → String
  | brokenTiles name dims =>
    s!"input '{name}' is {dims.text}; dimensions must be positive multiples of {tileSide}"
  | repeatedInput name => s!"input '{name}' is declared twice"
  | repeatedOutput stage name => s!"stage {stage}: output '{name}' is already declared"
  | incompleteReduce stage => s!"stage {stage}: reduce needs both pool and reduce_dim"
  | notReduce stage => s!"stage {stage}: pool and reduce_dim are only valid on reduce"
  | missingOp stage => s!"stage {stage}: eltwise needs an op"
  | notEltwise stage => s!"stage {stage}: op is only valid on eltwise"
  | broadcastMismatch stage =>
    s!"stage {stage}: broadcast is set exactly when the loader is broadcast"
  | zeroIterations stage => s!"stage {stage}: iterations must be at least 1"
  | innerMismatch stage cols rows =>
    s!"stage {stage}: matmul inner dimensions differ ({cols} vs {rows})"
  | registry error => error.message
  | incompleteArithmetic stage => s!"stage {stage}: incomplete arithmetic unit"
  | unknownUnary name => s!"unknown unary op '{name}'"
  | unknownBinary name => s!"unknown binary op '{name}'"
  | infiniteFill stage fill => s!"stage {stage}: fill_value must be finite, got {fill.text}"
  | fillOnBinary stage => s!"stage {stage}: fill_value is only valid on unary units"

/-- Wording of a refusal. -/
def message (fault : DescriptionFault) : String :=
  s!"invalid pipeline description: {fault.text}"

end DescriptionFault

/-- Checks inputs in order; `taken` are the names in front. Returns all names. -/
def checkInputs (taken : List String) :
    List InputEntry → Except DescriptionFault (List String)
  | [] => .ok taken
  | input :: rest =>
    if !input.dims.isWhole then .error (.brokenTiles input.name input.dims)
    else if taken.contains input.name then .error (.repeatedInput input.name)
    else checkInputs (input.name :: taken) rest

/-- Shape of the input of a name. -/
def inputDims? (inputs : List InputEntry) (name : String) : Option Dims :=
  (inputs.find? fun input => input.name == name).map (·.dims)

/-- The inner dimensions of a matrix product, when both sources are inputs and they differ. -/
def innerMismatch? (inputs : List InputEntry) (stage : StageEntry) : Option (Nat × Nat) := do
  let a ← inputDims? inputs stage.sourceA
  let b ← inputDims? inputs (← stage.sourceB)
  if a.cols = b.rows then none else some (a.cols, b.rows)

/-- Checks the settings of a stage. -/
def checkStage (inputs : List InputEntry) (index : Nat) (stage : StageEntry) :
    Except DescriptionFault Unit :=
  let reduces := stage.arithmetic == .reduce
  let eltwise := stage.arithmetic == .eltwise
  if reduces && (stage.pool.isNone || stage.reduceDim.isNone) then .error (.incompleteReduce index)
  else if !reduces && (stage.pool.isSome || stage.reduceDim.isSome) then .error (.notReduce index)
  else if eltwise && stage.op.isNone then .error (.missingOp index)
  else if !eltwise && stage.op.isSome then .error (.notEltwise index)
  else if (stage.loader == .broadcast) != stage.broadcast.isSome then
    .error (.broadcastMismatch index)
  else if stage.nonlinear.any (·.iterations == 0) then .error (.zeroIterations index)
  else if stage.arithmetic == .matmul then
    match innerMismatch? inputs stage with
    | some (cols, rows) => .error (.innerMismatch index cols rows)
    | none => .ok ()
  else .ok ()

/-- Checks stages in order, from the place `index` on; `taken` are the names in front. -/
def checkStages (inputs : List InputEntry) (index : Nat) (taken : List String) :
    List StageEntry → Except DescriptionFault Unit
  | [] => .ok ()
  | stage :: rest =>
    if taken.contains stage.output then .error (.repeatedOutput index stage.output)
    else do
      checkStage inputs index stage
      checkStages inputs (index + 1) (stage.output :: taken) rest

/-- Checks a description. -/
def Description.check (d : Description) : Except DescriptionFault Unit := do
  let names ← checkInputs [] d.inputs
  checkStages d.inputs 0 names d.stages

end TileFusion
