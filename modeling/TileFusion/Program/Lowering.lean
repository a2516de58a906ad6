import TileFusion.Program.Statement
import TileFusion.Program.StageNames

/-!
# From a pipeline to thread programs

Every stage contributes one section to each thread, in stage order. Nothing can fail here: all
checks belong to the build.
-/

namespace TileFusion

/-- A stage together with the operands that its identifiers stand for. -/
structure StageView where
  stage : Stage
  settings : Settings
  /-- Operand behind the first unpacker. -/
  bufferA : Operand
  /-- Operand behind the second unpacker. -/
  bufferB : Operand
  output : Operand
  /-- No stage follows. -/
  isLast : Bool

/-- An operand that no id of a registry stands for. -/
def Operand.absent : Operand :=
  { id := 0, name := "", role := .input, producer := none, location := .floating, contents := none }

/-- The operand of an id. The ids in a built pipeline are ids of its registry, so the absent operand
is never met there. -/
def Pipeline.operand (p : Pipeline) (id : Nat) : Operand :=
  (p.registry.operand? id).getD .absent

namespace Stage

/-- Ids of the operands that are read from memory, first source first. -/
def fresh (s : Stage) : List Nat :=
  match s.spec.loader.reuse with
  | .none => s.sourceA :: s.sourceB.toList
  | .sourceA => s.sourceB.toList
  | .sourceB => [s.sourceA]

/-- Id of the operand behind the first unpacker. A copy of the accumulator reads the output of the
stage in front back from memory. -/
def unpackedA (s : Stage) : Nat :=
  s.fresh.head?.getD s.sourceA

/-- Id of the operand behind the second unpacker, which repeats the first when there is no second
one in memory. -/
def unpackedB (s : Stage) : Nat :=
  s.fresh[1]?.getD s.unpackedA

end Stage

/-- A stage of a pipeline, with its operands. -/
def Pipeline.view (p : Pipeline) (s : Stage) : StageView :=
  { stage := s
    settings := p.settings
    bufferA := p.operand s.unpackedA
    bufferB := p.operand s.unpackedB
    output := p.operand s.output
    isLast := p.isLast s }

/-- What a stage contributes to a thread. -/
structure Section where
  /-- Headers that its calls need. -/
  headers : List String
  body : List Stmt

namespace StageView

/-- Index of the stage. -/
def index (v : StageView) : Nat :=
  v.stage.index

/-- The loader. -/
def loader (v : StageView) : Loader :=
  v.stage.spec.loader

/-- How the output tiles split into batches. -/
def batches (v : StageView) : BatchShape :=
  .split v.output.tiles v.stage.batchSize

/-- Whether copying and packing tilize as well as the unpacker. -/
def tilize (v : StageView) : Bool :=
  v.settings.platform == .blackhole && v.loader.kind == .tilize &&
    v.stage.formats.loadSource != .bfp8b

/-- Declaration of a buffer. -/
def bufferDeclaration (name : String) (o : Operand) (unused : Bool) : Stmt :=
  .declare (.buffer name o.address o.format.tileBytes unused)

/-- Pool and dimension of a reduction; other units, which a reducing loader never feeds, get the
sum of rows. -/
def reduceParameters : Arithmetic → Pool × ReduceDim
  | .reduce dim pool => (pool, dim)
  | _ => (.sum, .row)

/-- How the tiles of a stage are brought in. -/
structure Unpacking where
  /-- Header of the calls. -/
  header : String
  /-- What prepares a batch. -/
  init : Call
  /-- What runs for each tile. -/
  perTile : Stmt

/-- The calls that bring the tiles in. Only the elementwise unit moves the accumulator to a source
register. -/
def unpacking (v : StageView) : Unpacking :=
  let s := v.index
  let spec := v.stage.spec
  let loader := v.loader
  let columns := v.output.dims.tileCols
  let inner := v.stage.innerTiles
  let wordsA := v.stage.formats.loadA.source.tileWords
  let wordsB := v.stage.formats.loadB.source.tileWords
  match loader.kind with
  | .tilize =>
    { header := "llk_unpack_tilize.h"
      init := .unpackTilizeInit s columns
      perTile := .call (.unpackTilize s columns) }
  | .reduce =>
    let (pool, dim) := reduceParameters spec.arithmetic
    { header := "llk_unpack_AB_reduce.h"
      init := .unpackReduceInit pool dim
      perTile := .call (.unpackReduce s pool dim) }
  | .matmul =>
    { header := "llk_unpack_AB_matmul.h"
      init := .unpackMatmulInit inner
      perTile := .loop "kt" inner [.call (.unpackMatmul s columns inner wordsA wordsB)] }
  | .direct | .broadcast _ =>
    if loader.fresh.length == 2 then
      { header := "llk_unpack_AB.h"
        init := .unpackPairInit loader.kind.spread loader.transposeFaces
        perTile := .call (.unpackPair s loader.kind.spread) }
    else
      let reuse := match spec.arithmetic with
        | .eltwise _ => loader.reuse
        | _ => .none
      { header := "llk_unpack_A.h"
        init := .unpackSingleInit s reuse spec.unpackToDest loader.transposeFaces
          loader.transposeWithinFace
        perTile := .call (.unpackSingle s reuse spec.unpackToDest) }

/-- Section of the unpack thread. -/
def unpackSection (v : StageView) : Section :=
  let s := v.index
  let loadA := v.stage.formats.loadA
  let loadB := v.stage.formats.loadB
  let setup : UnpackSetup := ⟨s, v.stage.wideDest, loadA.source.tileWords, loadB.source.tileWords⟩
  let unpacking := v.unpacking
  { headers := [unpacking.header, "llk_unpack_common.h"]
    body :=
      [ .comment s!"Operation {s}: Unpacker",
        bufferDeclaration (StageNames.bufferA s) v.bufferA true,
        bufferDeclaration (StageNames.bufferB s) v.bufferB true,
        .declare (.format (StageNames.unpackSourceA s) loadA.source true),
        .declare (.format (StageNames.unpackTargetA s) loadA.target true),
        .declare (.format (StageNames.unpackSourceB s) loadB.source true),
        .declare (.format (StageNames.unpackTargetB s) loadB.target true),
        .call (if s = 0 then .unpackConfigure setup else .unpackReconfigure setup) ] ++
      (if s = 0 then [] else [.call .waitForPack]) ++
      [ .batched v.batches [.call unpacking.init, .forEachTile [unpacking.perTile]],
        .blank ] }

/-- Preparation, work per tile and clean-up of the arithmetic unit. -/
def arithmeticSection (v : StageView) : Section :=
  let s := v.index
  let spec := v.stage.spec
  let loader := v.loader
  let spread := loader.kind.spread
  let fidelity := spec.effectiveFidelity
  let wide := v.stage.wideDest
  match spec.arithmetic with
  | .eltwise op =>
    { headers := ["llk_math_common.h", "llk_math_eltwise_binary.h"]
      body :=
        [ .comment s!"Operation {s}: Eltwise {op.code} FPU",
          .call (.eltwiseInit op spread fidelity loader.reuse),
          .forEachTile [.call (.eltwise s op spread wide fidelity loader.reuse)],
          .call .eltwiseUninit ] }
  | .reduce dim pool =>
    let setup : ReduceSetup := ⟨pool, dim, wide, fidelity⟩
    { headers := ["llk_math_common.h", "llk_math_reduce.h"]
      body :=
        [ .comment s!"Operation {s}: Reduce {dim.code} FPU",
          .call (.reduceInit setup),
          .forEachTile [.call (.reduce setup)],
          .call (.reduceUninit v.stage.formats.loadSource) ] }
  | .matmul =>
    { headers := ["llk_math_common.h", "llk_math_matmul.h"]
      body :=
        [ .comment s!"Operation {s}: Matmul FPU",
          .call (.matmulInit fidelity loader.transposeFaces),
          .forEachTile [.loop "kt" v.stage.innerTiles [.call (.matmul fidelity)]] ] }
  | .datacopy =>
    let source := match loader.kind with
      | .broadcast _ => CopySource.registerB
      | _ => .registerA
    { headers := ["llk_math_common.h", "llk_math_eltwise_unary_datacopy.h"]
      body :=
        [ .comment s!"Operation {s}: Datacopy FPU",
          .call (.datacopyInit s source wide spread v.tilize),
          .forEachTile [.call (.datacopy s source wide spread spec.unpackToDest)],
          .call (.datacopyUninit spread) ] }

/-- Statements of a nonlinear unit. -/
def nonlinearSection (v : StageView) (unit : Nonlinear) : Section :=
  let s := v.index
  match unit with
  | .unary op iterations approximate fill =>
    { headers := ["sfpu_operations.h", "llk_math_eltwise_unary_sfpu.h"]
      body :=
        [ .comment s!"Operation {s}: Unary {op.code} SFPU",
          .call (.unaryInit op),
          .forEachTile
            [ .call (.unaryStart s),
              .call (.unary s op approximate v.stage.wideDest iterations fill),
              .call .unaryDone ] ] }
  | .binary op iterations approximate first second result =>
    { headers := ["sfpu_operations.h", "llk_math_eltwise_binary_sfpu.h", "ckernel_sfpu_binary.h"]
      body :=
        [ .comment s!"Operation {s}: Binary {op.code} SFPU",
          .call .binaryInit,
          .call (.binaryStart s),
          .call (.binary s op approximate iterations first second result),
          .call .binaryDone ] }

/-- Section of the math thread. -/
def mathSection (v : StageView) : Section :=
  let s := v.index
  let wide := v.stage.wideDest
  let arithmetic := v.arithmeticSection
  let nonlinear := v.stage.spec.nonlinear.map v.nonlinearSection
  { headers := arithmetic.headers ++ nonlinear.flatMap (·.headers)
    body :=
      [ .comment s!"Operation {s}: Math Setup",
        .declare (.format (StageNames.mathFormat s) v.stage.formats.compute false),
        .declare (.destSync (StageNames.destSync s) v.settings.destSync),
        .call (if s = 0 then .mathConfigure s wide else .mathReconfigure s wide),
        .call (.mathSyncInit s wide),
        .batched v.batches
          ([.call (.waitForDest s)] ++ arithmetic.body ++ nonlinear.flatMap (·.body) ++
            [.call (.destSectionDone s wide)]),
        .blank ] }

/-- Section of the pack thread. -/
def packSection (v : StageView) : Section :=
  let s := v.index
  let formats := v.stage.formats
  let sync := v.settings.destSync
  let wide := v.stage.wideDest
  let words := formats.storeTarget.tileWords
  let masked (dimCall : ReduceDim → Call) : List Stmt :=
    match v.stage.spec.arithmetic with
    | .reduce dim _ => [.call (dimCall dim)]
    | _ => []
  { headers := ["llk_pack.h", "llk_pack_common.h"]
    body :=
      [ .comment s!"Operation {s}: Packer",
        bufferDeclaration (StageNames.bufferResult s) v.output false,
        .declare (.format (StageNames.packSource s) formats.storeSource false),
        .declare (.format (StageNames.packTarget s) formats.storeTarget false),
        .call (if s = 0 then .packConfigure s wide v.tilize words
          else .packReconfigure s wide words),
        .call (.packInit s sync wide v.tilize) ] ++
      masked .packMaskConfigure ++
      [ .batched v.batches
          [ .call .packWaitForMath,
            .forEachTile [.call (.pack s sync wide)],
            .call (.packSectionDone sync wide) ] ] ++
      masked (fun _ => .packMaskClear) ++
      (if v.isLast then [] else [.call .signalUnpack]) ++
      [.blank] }

end StageView

/-- The program of a thread out of its sections. -/
def ThreadProgram.ofSections (sections : List Section) : ThreadProgram :=
  { headers := headerSet (sections.flatMap (·.headers))
    body := sections.flatMap (·.body) }

/-- The thread programs of a pipeline. -/
def Pipeline.lower (p : Pipeline) : Program :=
  let views := p.stages.map p.view
  { platform := p.settings.platform
    unpack := .ofSections (views.map (·.unpackSection))
    math := .ofSections (views.map (·.mathSection))
    pack := .ofSections (views.map (·.packSection)) }

end TileFusion
