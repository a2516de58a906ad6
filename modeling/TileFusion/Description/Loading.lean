import TileFusion.Description.Check

/-!
# From a description to a build

`Description.load` checks a description and turns it into what a build takes: a registry with the
declared operands, the stages and the settings.
-/

namespace TileFusion

/-- What a build takes. -/
structure BuildInput where
  registry : Registry
  specs : List StageSpec
  settings : Settings
  deriving DecidableEq, Repr

/-- The loader of a stage. -/
def StageEntry.loaderKind (entry : StageEntry) : LoaderKind :=
  match entry.loader with
  | .direct => .direct
  | .broadcast => .broadcast (entry.broadcast.getD .none)
  | .reduce => .reduce
  | .matmul => .matmul
  | .tilize => .tilize

/-- The arithmetic unit of a stage, if its settings are all there. -/
def StageEntry.arithmetic? (entry : StageEntry) : Option Arithmetic :=
  match entry.arithmetic with
  | .eltwise => entry.op.map .eltwise
  | .reduce => do return .reduce (← entry.reduceDim) (← entry.pool)
  | .matmul => some .matmul
  | .datacopy => some .datacopy

/-- The constant of a filling operation, which has to be finite. -/
def NonlinearEntry.checkedFill (index : Nat) (entry : NonlinearEntry) :
    Except DescriptionFault (Scalar binary32) :=
  match entry.fill with
  | none => .ok Nonlinear.defaultFill
  | some fill => if fill.isFinite then .ok fill else .error (.infiniteFill index fill)

/-- The nonlinear unit of an entry of stage `index`. -/
def NonlinearEntry.toUnit (index : Nat) (entry : NonlinearEntry) :
    Except DescriptionFault Nonlinear :=
  match entry.kind with
  | .unary =>
    match Named.ofName? entry.op with
    | none => .error (.unknownUnary entry.op)
    | some op => do
      let fill ← entry.checkedFill index
      return .unary op entry.iterations entry.approximate fill
  | .binary =>
    match Named.ofName? entry.op with
    | none => .error (.unknownBinary entry.op)
    | some op =>
      if entry.fill.isSome then .error (.fillOnBinary index)
      else
        .ok (.binary op entry.iterations entry.approximate (entry.first.getD 0)
          (entry.second.getD 1) (entry.result.getD 0))

/-- The stage of an entry. -/
def StageEntry.toSpec (index : Nat) (entry : StageEntry) : Except DescriptionFault StageSpec :=
  match entry.arithmetic? with
  | none => .error (.incompleteArithmetic index)
  | some arithmetic => do
    let nonlinear ← entry.nonlinear.mapM (·.toUnit index)
    return {
      loader := {
        kind := entry.loaderKind
        sourceA := entry.sourceA
        sourceB := entry.sourceB
        reuse := entry.reuse
        transposeFaces := entry.transposeFaces
        transposeWithinFace := entry.transposeWithinFace }
      arithmetic := arithmetic
      nonlinear := nonlinear
      output := entry.output
      outputFormat := entry.outputFormat
      fidelity := entry.fidelity
      unpackToDest := entry.unpackToDest }

/-- Declares inputs in order. -/
def declareInputs (registry : Registry) :
    List InputEntry → Logged (Except DescriptionFault Registry)
  | [] => pure (.ok registry)
  | input :: rest => do
    match ← registry.declareInput input.name input.dims input.format input.address with
    | .error error => pure (.error (.registry error))
    | .ok (registry, _) => declareInputs registry rest

/-- Declares the output of a stage when it asks for an address. -/
def declarePinned (registry : Registry) (index : Nat) (entry : StageEntry) :
    Except DescriptionFault Registry :=
  match entry.outputAddress with
  | none => .ok registry
  | some address =>
    match registry.declareOutput .output entry.output index (some address) with
    | .error error => .error (.registry error)
    | .ok (registry, _) => .ok registry

/-- Turns stages, from the place `index` on, into what a build takes. -/
def loadStages (registry : Registry) (index : Nat) :
    List StageEntry → Except DescriptionFault (Registry × List StageSpec)
  | [] => .ok (registry, [])
  | entry :: rest => do
    let registry ← declarePinned registry index entry
    let spec ← entry.toSpec index
    let (registry, specs) ← loadStages registry (index + 1) rest
    return (registry, spec :: specs)

/-- Checks a description and turns it into what a build for `platform` takes. -/
def Description.load (d : Description) (platform : Platform) :
    Logged (Except DescriptionFault BuildInput) :=
  match d.check with
  | .error fault => pure (.error fault)
  | .ok () => do
    match ← declareInputs .empty d.inputs with
    | .error fault => pure (.error fault)
    | .ok registry =>
      match loadStages registry 0 d.stages with
      | .error fault => pure (.error fault)
      | .ok (registry, specs) => do
        Logged.note .debug
          (s!"Loaded {d.inputs.length} input(s) and {specs.length} stage(s) " ++
            s!"for {platform.name}")
        pure (.ok {
          registry := registry
          specs := specs
          settings := {
            platform := platform
            accumulate := d.pipeline.accumulate
            batchSize := d.pipeline.batchSize
            destSync := d.pipeline.destSync } })

end TileFusion
