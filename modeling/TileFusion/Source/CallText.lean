import TileFusion.Program.Index
import TileFusion.Program.Statement
import TileFusion.Program.StageNames
import TileFusion.Scalar.Decimal

/-!
# Spelling of device calls

The lines of code that make one device call on one platform. This is the only place that knows how
the device library is spelled, and every difference between platforms is settled here. Index
expressions are over the variables of the loops around the call.
-/

namespace TileFusion

/-- Face layout of a whole tile: two by two faces of 16 by 16. -/
def tensorShape : String :=
  "ckernel::TensorShape\x7b16, 16, 2, 2\x7d"

/-- A truth value as a template argument. -/
def flag (b : Bool) : String :=
  if b then "true" else "false"

/-- A truth value as a number. -/
def bit (b : Bool) : String :=
  if b then "1" else "0"

/-- The number of a data format. -/
def formatValue (f : DataFormat) : String :=
  s!"static_cast<std::underlying_type_t<DataFormat>>(DataFormat::{f.name})"

/-- The address of a tile of a buffer. -/
def tileAddress (buffer : String) (index : Index) : String :=
  s!"L1_ADDRESS({buffer}[{index.text}])"

open StageNames in
/-- Lines of a call of the unpack thread. -/
def unpackLines (wormhole : Bool) : Call → List String
  | .waitForPack =>
    [ "t6_semaphore_wait_on_zero<p_stall::STALL_SYNC>(semaphore::PACK_DONE);",
      "t6_semaphore_get<>(semaphore::PACK_DONE);" ]
  | .unpackConfigure c =>
    [ s!"_llk_unpack_hw_configure_<{flag c.wideDest}, false>(" ++
        s!"{unpackSourceA c.stage}, {unpackSourceB c.stage}, " ++
        s!"{unpackTargetA c.stage}, {unpackTargetB c.stage}, " ++
        s!"{faceSide}, {faceSide}, {faceCount}, {faceCount}, {c.tileWordsA}, {c.tileWordsB});" ]
  | .unpackReconfigure c =>
    [ s!"_llk_unpack_reconfig_data_format_srca_impl_<{flag c.wideDest}, false>(" ++
        s!"{unpackSourceA c.stage}, {unpackTargetA c.stage}, {c.tileWordsA});",
      s!"_llk_unpack_reconfig_data_format_srcb_impl_<{flag c.wideDest}, false>(" ++
        s!"{unpackSourceB c.stage}, {unpackTargetB c.stage}, {c.tileWordsB});" ]
  | .unpackPairInit spread transpose =>
    let shape := if wormhole then s!"{faceSide}, {faceCount}, false" else tensorShape
    [s!"_llk_unpack_AB_init_<{spread.code}>({shape}, {bit transpose});"]
  | .unpackPair s spread =>
    [ s!"_llk_unpack_AB_<{spread.code}>(" ++
        s!"{tileAddress (bufferA s) .tile}, {tileAddress (bufferB s) (.second spread)});" ]
  | .unpackSingleInit s reuse unpackToDest transposeFaces transposeWithinFace =>
    [ s!"_llk_unpack_A_init_<BroadcastType::NONE, false, {reuse.code}, {flag unpackToDest}>(" ++
        s!"{bit transposeFaces}, {bit transposeWithinFace}, {faceSide}, {faceCount}, " ++
        s!"{unpackSourceA s}, {unpackTargetA s});" ]
  | .unpackSingle s reuse unpackToDest =>
    [ s!"_llk_unpack_A_<BroadcastType::NONE, false, {reuse.code}, {flag unpackToDest}>(" ++
        s!"{tileAddress (bufferA s) .tile}, {unpackSourceA s}, {unpackTargetA s});" ]
  | .unpackReduceInit pool dim =>
    let shape := if wormhole then tensorShape else s!"{faceSide}, {faceCount}"
    [s!"_llk_unpack_AB_reduce_init_<{pool.code}, {dim.code}>({shape});"]
  | .unpackReduce s pool dim =>
    [ s!"_llk_unpack_AB_reduce_<{pool.code}, {dim.code}>(" ++
        s!"{tileAddress (bufferA s) .tile}, {tileAddress (bufferB s) (.const 0)});" ]
  | .unpackMatmulInit inner =>
    [s!"_llk_unpack_AB_matmul_init_<>(0, 1, 1, {inner}, {faceSide}, {faceSide});"]
  | .unpackMatmul s columns inner wordsA wordsB =>
    [ s!"_llk_unpack_AB_matmul_<>(" ++
        s!"{tileAddress (bufferA s) (.const 0)}, {tileAddress (bufferB s) (.const 0)}, " ++
        s!"{(Index.leftFactor columns inner).text}, {(Index.rightFactor columns).text}, " ++
        s!"{wordsA}, {wordsB}, false, false, 1, 1, {inner});" ]
  | .unpackTilizeInit s columns =>
    [ s!"_llk_unpack_tilize_init_({unpackSourceA s}, {unpackTargetA s}, {columns}, " ++
        s!"{faceSide}, false);" ]
  | .unpackTilize s columns =>
    [ s!"_llk_unpack_tilize_({tileAddress (bufferA s) (.tilizedRow columns)}, " ++
        s!"{(Index.tilizedColumn columns).text}, {unpackSourceA s}, {columns}, " ++
        s!"{faceSide}, {faceCount}, false);" ]
  | _ => []

open StageNames in
/-- Lines of a call of the math thread. -/
def mathLines (platform : Platform) (wormhole : Bool) : Call → List String
  | .mathConfigure s wide =>
    let call := match platform with
      | .quasar => "_llk_math_srcAB_hw_configure_"
      | .wormhole | .blackhole => "_llk_math_hw_configure_"
    [s!"{call}<{flag wide}>({mathFormat s}, {mathFormat s});"]
  | .mathReconfigure s wide =>
    [ s!"_llk_math_reconfig_data_format_<{flag wide}, false>(" ++
        s!"{mathFormat s}, {mathFormat s});" ]
  | .mathSyncInit s wide => [s!"_llk_math_pack_sync_init_<{destSync s}, {flag wide}>();"]
  | .waitForDest s => [s!"_llk_math_wait_for_dest_available_<{destSync s}>();"]
  | .destSectionDone s wide => [s!"_llk_math_dest_section_done_<{destSync s}, {flag wide}>();"]
  | .eltwiseInit op spread fidelity reuse =>
    [ s!"_llk_math_eltwise_binary_init_<ckernel::EltwiseBinaryType::{op.code}, {spread.code}, " ++
        s!"{fidelity.code}, {reuse.code}>({tensorShape}, 0);" ]
  | .eltwise s op spread wide fidelity reuse =>
    [ s!"_llk_math_eltwise_binary_<{op.code}, {spread.code}, {destSync s}, {flag wide}, " ++
        s!"{fidelity.code}, {reuse.code}>({tensorShape}, i, false);" ]
  | .eltwiseUninit => ["_llk_math_eltwise_binary_uninit_();"]
  | .reduceInit c =>
    [ s!"_llk_math_reduce_init_<{c.pool.code}, {c.dim.code}, {flag c.wideDest}, " ++
        s!"{c.fidelity.code}, false>();" ]
  | .reduce c =>
    [ s!"_llk_math_reduce_<{c.pool.code}, {c.dim.code}, {flag c.wideDest}, " ++
        s!"{c.fidelity.code}, false, false>(i, false, {faceCount});" ]
  | .reduceUninit format =>
    if wormhole then [s!"_llk_math_reduce_uninit_({formatValue format});"] else []
  | .matmulInit fidelity transpose =>
    [ s!"_llk_math_matmul_init_<{fidelity.code}>(" ++
        s!"TILE_R_DIM, TILE_C_DIM, TILE_R_DIM, TILE_C_DIM, false, {bit transpose}, 1, 1);" ]
  | .matmul fidelity => [s!"_llk_math_matmul_<{fidelity.code}>(i, 1, 1);"]
  | .datacopyInit s source wide spread tilize =>
    let shared := s!"{source.code}, {flag wide}, {spread.code}"
    let extra := if wormhole then flag wide else s!"{flag tilize}, {flag wide}"
    [ s!"_llk_math_eltwise_unary_datacopy_init_<{shared}, {extra}>(" ++
        s!"{faceCount}, {mathFormat s});" ]
  | .datacopy s source wide spread unpackToDest =>
    let faces := if wormhole then "" else s!", {faceCount}"
    [ s!"_llk_math_eltwise_unary_datacopy_<{source.code}, {destSync s}, {flag wide}, " ++
        s!"{spread.code}, {flag unpackToDest}>(i, {mathFormat s}, {mathFormat s}{faces});" ]
  | .datacopyUninit spread =>
    [s!"_llk_math_eltwise_unary_datacopy_uninit_<{spread.code}, false>();"]
  | .unaryInit op => [s!"_llk_math_eltwise_unary_sfpu_init_<SfpuType::{op.code}>();"]
  | .unaryStart s => [s!"_llk_math_eltwise_unary_sfpu_start_<{destSync s}>(i);"]
  | .unary s op approximate wide iterations fill =>
    [ s!"test_utils::call_sfpu_operation<{flag approximate}, {flag wide}, {iterations}>(" ++
        s!"SfpuType::{op.code}, {mathFormat s}, {fill.text}f);" ]
  | .unaryDone => ["_llk_math_eltwise_unary_sfpu_done_();"]
  | .binaryInit => ["_llk_math_eltwise_binary_sfpu_init_<SfpuType::add1>();"]
  | .binaryStart s => [s!"_llk_math_eltwise_binary_sfpu_start_<{destSync s}>(0);"]
  | .binary s op approximate iterations first second result =>
    let format := match op with
      | .addTopRow => "0"
      | _ => mathFormat s
    [ s!"test_utils::call_binary_sfpu_operation<{flag approximate}, " ++
        s!"ckernel::BinaryOp::{op.code}, {iterations}, {format}>({first}, {second}, {result});" ]
  | .binaryDone => ["_llk_math_eltwise_binary_sfpu_done_();"]
  | _ => []

open StageNames in
/-- Lines of a call of the pack thread. -/
def packLines (wormhole : Bool) : Call → List String
  | .signalUnpack => ["t6_semaphore_post<>(semaphore::PACK_DONE);"]
  | .packConfigure s wide tilize words =>
    let extra := if wormhole then "" else s!", {flag tilize}"
    [ s!"_llk_pack_hw_configure_<{flag wide}, false{extra}>(" ++
        s!"{packSource s}, {packTarget s}, {words});" ]
  | .packReconfigure s wide words =>
    [ s!"_llk_pack_reconfig_data_format_<{flag wide}, false>(" ++
        s!"{packSource s}, {packTarget s}, {words});" ]
  | .packInit s sync wide tilize =>
    if wormhole then
      [ s!"_llk_pack_init_<false, false>({packTarget s});",
        s!"_llk_pack_dest_init_<{sync.code}, {flag wide}, false>();" ]
    else
      [ s!"_llk_pack_init_<false, false, {flag tilize}>({packTarget s}, {packTarget s}, " ++
          s!"{faceSide}, TILE_C_DIM, {faceCount}, false, false);",
        s!"_llk_pack_dest_init_<{sync.code}, {flag wide}>();" ]
  | .packMaskConfigure dim => [s!"_llk_pack_reduce_mask_config_<false, {dim.code}>();"]
  | .packMaskClear => ["_llk_pack_reduce_mask_clear_();"]
  | .packWaitForMath => ["_llk_packer_wait_for_math_done_();"]
  | .pack s sync wide =>
    [ s!"_llk_pack_<{sync.code}, {flag wide}, false>(" ++
        s!"{Index.place.text}, {tileAddress (bufferResult s) .tile});" ]
  | .packSectionDone sync wide =>
    [s!"_llk_pack_dest_section_done_<{sync.code}, {flag wide}>();"]
  | _ => []

/-- Lines of a call; none where the platform has no such call. -/
def Call.lines (platform : Platform) (call : Call) : List String :=
  let wormhole := platform == .wormhole
  unpackLines wormhole call ++ mathLines platform wormhole call ++ packLines wormhole call

end TileFusion
