import TileFusion.Pipeline

/-!
# Device calls

One constructor per call of the device library that a fused kernel can make, with the arguments that
differ from use to use. A stage index stands for all identifiers that the kernel declares for that
stage. How a call is spelled on a platform is a matter of the source text.
-/

namespace TileFusion

/-- Where a copy to the accumulator comes from. Copies that spread use register B. -/
inductive CopySource where
  | registerA
  | registerB
  deriving DecidableEq, Repr

/-- Spelling in device code. -/
def CopySource.code : CopySource → String
  | registerA => "DataCopyType::A2D"
  | registerB => "DataCopyType::B2D"

/-- Arguments that a configuration of the unpackers takes, with the words of a tile behind each. -/
structure UnpackSetup where
  stage : Nat
  wideDest : Bool
  tileWordsA : Nat
  tileWordsB : Nat
  deriving DecidableEq, Repr

/-- Arguments that a reduction takes in the math thread. -/
structure ReduceSetup where
  pool : Pool
  dim : ReduceDim
  wideDest : Bool
  fidelity : Fidelity
  deriving DecidableEq, Repr

/-- A call of the device library. A thread configures its unit anew at the start of every stage, and
the first time by another call. -/
inductive Call where
  /-- The unpack thread waits until the previous stage's output is in memory. -/
  | waitForPack
  /-- The pack thread reports that the output is in memory. -/
  | signalUnpack
  | unpackConfigure (setup : UnpackSetup)
  | unpackReconfigure (setup : UnpackSetup)
  | unpackPairInit (spread : Broadcast) (transpose : Bool)
  | unpackPair (stage : Nat) (spread : Broadcast)
  | unpackSingleInit (stage : Nat) (reuse : Reuse) (unpackToDest : Bool)
      (transposeFaces transposeWithinFace : Bool)
  | unpackSingle (stage : Nat) (reuse : Reuse) (unpackToDest : Bool)
  | unpackReduceInit (pool : Pool) (dim : ReduceDim)
  /-- Brings in a tile together with the scalers. -/
  | unpackReduce (stage : Nat) (pool : Pool) (dim : ReduceDim)
  | unpackMatmulInit (innerTiles : Nat)
  /-- Brings in the pair of tiles of one step along the inner dimension. -/
  | unpackMatmul (stage : Nat) (tileCols innerTiles tileWordsA tileWordsB : Nat)
  | unpackTilizeInit (stage : Nat) (tileCols : Nat)
  | unpackTilize (stage : Nat) (tileCols : Nat)
  | mathConfigure (stage : Nat) (wideDest : Bool)
  | mathReconfigure (stage : Nat) (wideDest : Bool)
  | mathSyncInit (stage : Nat) (wideDest : Bool)
  /-- The math thread waits for a free accumulator section. -/
  | waitForDest (stage : Nat)
  /-- The math thread hands a filled section on. -/
  | destSectionDone (stage : Nat) (wideDest : Bool)
  | eltwiseInit (op : EltwiseOp) (spread : Broadcast) (fidelity : Fidelity) (reuse : Reuse)
  | eltwise (stage : Nat) (op : EltwiseOp) (spread : Broadcast) (wideDest : Bool)
      (fidelity : Fidelity) (reuse : Reuse)
  | eltwiseUninit
  | reduceInit (setup : ReduceSetup)
  | reduce (setup : ReduceSetup)
  /-- Restores the unpacker state that a reduction changed. -/
  | reduceUninit (format : DataFormat)
  | matmulInit (fidelity : Fidelity) (transpose : Bool)
  | matmul (fidelity : Fidelity)
  | datacopyInit (stage : Nat) (source : CopySource) (wideDest : Bool) (spread : Broadcast)
      (tilize : Bool)
  | datacopy (stage : Nat) (source : CopySource) (wideDest : Bool) (spread : Broadcast)
      (unpackToDest : Bool)
  | datacopyUninit (spread : Broadcast)
  | unaryInit (op : UnaryOp)
  | unaryStart (stage : Nat)
  | unary (stage : Nat) (op : UnaryOp) (approximate wideDest : Bool) (iterations : Nat)
      (fill : Scalar binary32)
  | unaryDone
  | binaryInit
  | binaryStart (stage : Nat)
  | binary (stage : Nat) (op : BinaryOp) (approximate : Bool)
      (iterations first second result : Nat)
  | binaryDone
  | packConfigure (stage : Nat) (wideDest tilize : Bool) (tileWords : Nat)
  | packReconfigure (stage : Nat) (wideDest : Bool) (tileWords : Nat)
  | packInit (stage : Nat) (sync : DestSync) (wideDest tilize : Bool)
  | packMaskConfigure (dim : ReduceDim)
  | packMaskClear
  /-- The pack thread waits for a filled section. -/
  | packWaitForMath
  | pack (stage : Nat) (sync : DestSync) (wideDest : Bool)
  /-- The pack thread frees a section. -/
  | packSectionDone (sync : DestSync) (wideDest : Bool)
  deriving DecidableEq, Repr

end TileFusion
