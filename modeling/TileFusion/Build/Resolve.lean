import TileFusion.Build.Check

/-!
# Resolving one stage

A stage is resolved against the registry that the stages in front have left. Its sources are looked
up, its output is declared, formats and capacity are settled, and only when nothing was found wrong
does the output get its contents. A stage that fails still declares its output, so that later
readers of it are not blamed.
-/

namespace TileFusion

/-- What resolving a stage leaves behind. -/
structure StageOutcome where
  /-- The registry for the stages behind. -/
  registry : Registry
  causes : List Cause
  /-- The stage, if it could be resolved. -/
  stage : Option Stage

/-- The operand that a stage reads under a name. It has to be settled already. One that is not,
since the stage that writes it has failed, is not reported again. -/
def findSource (registry : Registry) (failed : List Nat) (name : String) :
    Except (List Cause) Operand :=
  match registry.find? name with
  | none => .error [.unknownOperand name]
  | some o =>
    if o.isResolved then .ok o
    else if o.producer.any (failed.contains ·) then .error []
    else .error [.fusion (.readTooEarly name o.producer)]

/-- The second source of a stage, when it names one. -/
def findSecond (registry : Registry) (failed : List Nat) :
    Option String → Except (List Cause) (Option Operand)
  | none => .ok none
  | some name => (findSource registry failed name).map some

/-- Whether a stage reads an operand. -/
def StageSpec.reads (spec : StageSpec) (name : String) : Bool :=
  spec.loader.sourceA == name || spec.loader.sourceB == some name

/-- The role of a stage's output: it is an intermediate when a later stage reads it. -/
def Site.outputRole (site : Site) : Role :=
  if site.later.any (·.reads site.spec.output) then .intermediate else .output

/-- Declares the output of a stage, or takes over a declaration that was made for it. -/
def claimOutput (registry : Registry) (site : Site) : Registry × Except Cause Operand :=
  let name := site.spec.output
  match registry.find? name with
  | none =>
    let o := registry.fresh name site.outputRole (some site.index) none
    (registry.push o, .ok o)
  | some o =>
    if o.role == .input || o.isResolved then (registry, .error (.duplicateOperand name))
    else
      match o.producer with
      | some producer =>
        if producer == site.index then
          let o' := { o with role := site.outputRole }
          (registry.modify o.id fun _ => o', .ok o')
        else (registry, .error (.fusion (.outputOfOther name producer)))
      | none =>
        let o' := { o with role := site.outputRole }
        (registry.modify o.id fun _ => o', .ok o')

/-- Formats in memory of the operands behind the first and the second unpacker. A stage that reads
only the accumulator unpacks in the format of the reused operand. -/
def loadFormats (reuse : Reuse) (a : Operand) (b : Option Operand) :
    DataFormat × Option DataFormat :=
  match reuse, b with
  | .none, some b => (a.format, some b.format)
  | .sourceA, some b => (b.format, none)
  | _, _ => (a.format, none)

/-- What the formats of a stage depend on. -/
def formatRequest (settings : Settings) (spec : StageSpec) (a : Operand) (b : Option Operand) :
    FormatRequest :=
  let (load, secondary) := loadFormats spec.loader.reuse a b
  { load := load
    store := spec.outputFormat
    accumulate := settings.accumulate
    unpackToDest := spec.unpackToDest
    platform := settings.platform
    secondary := secondary }

/-- Whether the accumulator has to hold 32-bit data. -/
def needsWideDest (r : FormatRequest) : Bool :=
  r.accumulate || r.load.is32Bit || r.secondary.any DataFormat.is32Bit || r.store.is32Bit ||
    isOutlier r.load r.store r.accumulate

/-- The causes of a failure, if it is one. -/
def causesOf {α : Type} : Except Cause α → List Cause
  | .ok _ => []
  | .error cause => [cause]

/-- The causes of a failed search, if it is one. -/
def searchCauses {α : Type} : Except (List Cause) α → List Cause
  | .ok _ => []
  | .error causes => causes

/-- Resolves a stage whose sources are known. `early` is what was found wrong before. -/
def resolveWith (settings : Settings) (registry : Registry) (site : Site) (early : List Cause)
    (a : Operand) (b : Option Operand) : Logged StageOutcome :=
  let spec := site.spec
  let shape := stageShape spec a b
  let request := formatRequest settings spec a b
  let (declared, output) := claimOutput registry site
  let plan := request.plan
  let found := early ++ (shapeFaults spec a b).map .shape
  match output, plan with
  | .ok output, .ok formats =>
    let wide := needsWideDest request
    let capacity := accumulatorCapacity settings.platform wide settings.destSync
    let causes := found ++
      (if shape.dims.tileCount?.isSome then [] else [.shape (.tooManyTiles shape.dims)]) ++
      (if settings.batchSize ≤ capacity then []
        else [.capacity (.batchTooLarge settings.batchSize capacity)])
    if causes.isEmpty then do
      match ← declared.resolve output shape.dims spec.outputFormat with
      | .error error => pure ⟨declared, [.ofRegistry error], none⟩
      | .ok resolved =>
        let tiles := shape.dims.tileCount?.getD 0
        if tiles < settings.batchSize then
          Logged.note .warn
            (s!"stage {site.index}: batch size {settings.batchSize} clamped to " ++
              s!"{tiles} output tile(s)")
        pure {
          registry := resolved
          causes := []
          stage := some {
            index := site.index
            spec := spec
            sourceA := a.id
            sourceB := b.map (·.id)
            output := output.id
            formats := formats
            batchSize := min settings.batchSize tiles
            capacity := capacity
            wideDest := wide
            innerTiles := shape.innerTiles } }
    else pure ⟨declared, causes, none⟩
  | _, _ =>
    pure ⟨declared, found ++ causesOf output ++
      causesOf (plan.mapError .format), none⟩

/-- Resolves a stage. -/
def resolveStage (settings : Settings) (registry : Registry) (failed : List Nat) (site : Site) :
    Logged StageOutcome :=
  let early := descriptionCauses settings.platform site
  let a := findSource registry failed site.spec.loader.sourceA
  let b := findSecond registry failed site.spec.loader.sourceB
  match a, b with
  | .ok a, .ok b => resolveWith settings registry site early a b
  | _, _ =>
    let (declared, output) := claimOutput registry site
    pure ⟨declared, early ++ searchCauses a ++ searchCauses b ++ causesOf output, none⟩

end TileFusion
