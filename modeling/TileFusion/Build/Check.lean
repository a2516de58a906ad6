import TileFusion.Build.Error

/-!
# Checks of one stage

Checks that depend on the descriptions alone, and checks of shapes. Each returns what it found, in
the order in which it is reported; an empty list is a pass.
-/

namespace TileFusion

/-- A stage among its neighbours. -/
structure Site where
  index : Nat
  previous : Option StageSpec
  spec : StageSpec
  later : List StageSpec

/-- The sites of a list of stages, when `index` stages stand in front of it and `previous` is the
last of them. -/
def sitesFrom (index : Nat) (previous : Option StageSpec) : List StageSpec → List Site
  | [] => []
  | spec :: later => ⟨index, previous, spec, later⟩ :: sitesFrom (index + 1) (some spec) later

/-- Every stage of a pipeline among its neighbours. -/
def sites (specs : List StageSpec) : List Site :=
  sitesFrom 0 none specs

theorem map_spec_sites (index : Nat) (previous : Option StageSpec) (specs : List StageSpec) :
    (sitesFrom index previous specs).map (·.spec) = specs := by
  induction specs generalizing index previous with
  | nil => rfl
  | cons spec specs ih => simp [sitesFrom, ih]

/-- The first stage finds an empty accumulator; every other one has to take over the output of the
stage in front. -/
def fusionFaults (site : Site) : List FusionFault :=
  let loader := site.spec.loader
  match site.previous with
  | none => if loader.reuse.isReuse then [.nothingToReuse] else []
  | some previous =>
    if !loader.reuse.isReuse then [.reuseMissing (site.index - 1)]
    else
      match loader.reused with
      | some name =>
        if name == previous.output then []
        else [.reuseMismatch name (site.index - 1) previous.output]
      | none => [.reuseUnnamed]

/-- Whether a loader delivers what an arithmetic unit takes. -/
def feeds : LoaderKind → Arithmetic → Bool
  | .direct, .datacopy | .broadcast _, .datacopy | .tilize, .datacopy => true
  | .direct, .eltwise _ | .broadcast _, .eltwise _ => true
  | .reduce, .reduce _ _ => true
  | .matmul, .matmul => true
  | _, _ => false

/-- Operands that a stage has to read from memory. -/
def freshWanted (spec : StageSpec) : Nat :=
  match spec.arithmetic, spec.loader.reuse with
  | .eltwise _, .none => 2
  | .eltwise _, _ => 1
  | .datacopy, .none =>
    match spec.loader.kind with
    | .broadcast _ => 2
    | _ => 1
  | .datacopy, _ => 0
  | .reduce _ _, _ => 2
  | .matmul, _ => 2

/-- Restrictions on the units of a stage. -/
def restrictions (platform : Platform) (spec : StageSpec) : List Restriction :=
  let kind := spec.loader.kind
  let arithmetic := spec.arithmetic
  let reuses := spec.loader.reuse.isReuse
  let readsAccumulator := match arithmetic with
    | .eltwise _ | .datacopy => true
    | _ => false
  let onQuasar := platform == .quasar
  (if feeds kind arithmetic then [] else [.unsupportedPair kind arithmetic]) ++
    (if reuses && kind != .direct then [.loaderCannotReuse kind] else []) ++
    (if reuses && !readsAccumulator then [.arithmeticCannotReuse arithmetic] else []) ++
    (if onQuasar && (arithmetic.isReduce || kind == .reduce) then [.noReductions] else []) ++
    (if onQuasar && kind == .tilize then [.noTilize] else [])

/-- The number of operands read from memory, if it is wrong. -/
def operandCountFaults (spec : StageSpec) : List ShapeFault :=
  let given := spec.loader.fresh.length
  if given == freshWanted spec then []
  else [.operandCount spec.arithmetic (freshWanted spec) given]

/-- All that is wrong with a stage on the face of the descriptions. -/
def descriptionCauses (platform : Platform) (site : Site) : List Cause :=
  (fusionFaults site).map .fusion ++
    (restrictions platform site.spec).map (.restriction platform) ++
    (operandCountFaults site.spec).map .shape

/-- Whether a stage tilizes. -/
def StageSpec.tilizes (spec : StageSpec) : Bool :=
  spec.loader.kind == .tilize

/-- On the one platform where the tilizing unpacker reprograms what the others share, either all
stages tilize or none does. -/
def mixingErrors (platform : Platform) (specs : List StageSpec) : List BuildError :=
  if platform == .blackhole && specs.any (·.tilizes) && !specs.all (·.tilizes) then
    (sites specs).filterMap fun site =>
      if site.spec.tilizes then some ⟨site.index, .restriction platform .mixedTilize⟩ else none
  else []

/-- What is wrong with a pipeline as a whole. -/
def overallErrors (settings : Settings) (specs : List StageSpec) : List BuildError :=
  (if specs.isEmpty then [⟨0, .fusion .noStages⟩] else []) ++
    (if settings.batchSize = 0 then [⟨0, .capacity .emptyBatch⟩] else []) ++
    mixingErrors settings.platform specs

/-- Shape of a stage's result. -/
structure StageShape where
  dims : Dims
  innerTiles : Nat

/-- Shape of the result: the outer dimensions of a matrix product, otherwise the first source. -/
def stageShape (spec : StageSpec) (a : Operand) (b : Option Operand) : StageShape :=
  match spec.arithmetic, b with
  | .matmul, some b => ⟨⟨a.dims.rows, b.dims.cols⟩, max (a.dims.cols / tileSide) 1⟩
  | _, _ => ⟨a.dims, 1⟩

/-- Sources that are not made of whole tiles. -/
def tileFaults (sources : List Operand) : List ShapeFault :=
  sources.filterMap fun o => if o.dims.isWhole then none else some (.brokenTiles o.name o.dims)

/-- Sources whose shapes do not go together. A scalar spread fits any first operand. -/
def agreementFaults (spec : StageSpec) (a : Operand) (b : Option Operand) : List ShapeFault :=
  match spec.arithmetic, b with
  | .matmul, some b =>
    if a.dims.cols == b.dims.rows then []
    else [.innerMismatch a.name a.dims.cols b.name b.dims.rows]
  | .eltwise _, some b =>
    if spec.loader.kind.spread == .scalar || a.dims == b.dims then []
    else [.dimsMismatch a.name a.dims b.name b.dims]
  | _, _ => []

/-- All that is wrong with the shapes of a stage's sources. -/
def shapeFaults (spec : StageSpec) (a : Operand) (b : Option Operand) : List ShapeFault :=
  tileFaults (a :: b.toList) ++ agreementFaults spec a b

end TileFusion
