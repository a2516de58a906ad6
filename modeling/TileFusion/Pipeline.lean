import TileFusion.Placement
import TileFusion.Stage

/-!
# Pipelines

A pipeline is a checked sequence of stages that share one accumulator, with the registry of their
operands.
-/

namespace TileFusion

/-- How much of the accumulator one handoff from the math thread to the pack thread covers. -/
inductive DestSync where
  /-- One half is filled while the other is drained. -/
  | half
  /-- The whole accumulator at once. -/
  | full
  deriving DecidableEq, Repr

namespace DestSync

instance : Named DestSync where
  all := [half, full]
  name
    | half => "half"
    | full => "full"

/-- Spelling in device code. -/
def code : DestSync → String
  | half => "DstSync::SyncHalf"
  | full => "DstSync::SyncFull"

end DestSync

/-- Settings that hold for every stage. -/
structure Settings where
  platform : Platform
  /-- 32-bit accumulation. -/
  accumulate : Bool
  /-- Tiles per accumulator batch. -/
  batchSize : Nat
  /-- Extent of one handoff. -/
  destSync : DestSync
  deriving DecidableEq, Repr

/-- Tiles that the accumulator holds for one handoff. Each of half handoff and 32-bit data halves
what the platform has. -/
def accumulatorCapacity (platform : Platform) (wide : Bool) (sync : DestSync) : Nat :=
  let tiles := platform.accumulatorTiles
  let shared := match sync with
    | .half => tiles / 2
    | .full => tiles
  if wide then shared / 2 else shared

/-- A checked pipeline. -/
structure Pipeline where
  settings : Settings
  stages : List Stage
  registry : Registry
  deriving DecidableEq, Repr

/-- Whether a stage is the last one. -/
def Pipeline.isLast (p : Pipeline) (s : Stage) : Bool :=
  s.index + 1 == p.stages.length

end TileFusion
